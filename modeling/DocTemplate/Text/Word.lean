/-
Unsigned 64-bit words in texts.

* `Word.read?` — the word a text denotes: an optional plus sign and decimal
  digits, below `Word.bound`;
* `digitValue?`, `naturalOfDigits` — decimal digits and the numbers they write.
-/
namespace DocTemplate.Text

/-- The value of a decimal digit. -/
def digitValue? (c : Char) : Option Nat :=
  if c.isDigit then some (c.toNat - '0'.toNat) else none

/-- The value of a digit in a base up to sixteen, letters of either case. -/
def digitIn? (base : Nat) (c : Char) : Option Nat :=
  let value :=
    if c.isDigit then some (c.toNat - '0'.toNat)
    else if 'a' ≤ c ∧ c ≤ 'f' then some (c.toNat - 'a'.toNat + 10)
    else if 'A' ≤ c ∧ c ≤ 'F' then some (c.toNat - 'A'.toNat + 10)
    else none
  value.filter (· < base)

/-- The number written by a list of digits in a base, the first digit leading. -/
def naturalOfDigits (base : Nat) (ds : List Nat) : Nat :=
  ds.foldl (fun n d => n * base + d) 0

/-- The natural number written in a base; at least one digit and nothing else. -/
def natural? (base : Nat) (cs : List Char) : Option Nat :=
  if cs.isEmpty then none else (cs.mapM (digitIn? base)).map (naturalOfDigits base)

namespace Word

/-- The number of 64-bit words. -/
def bound : Nat := 1 <<< 64

/-- The greatest 64-bit word. -/
def greatest : Nat := bound - 1

/-- A list of characters without one leading plus sign. -/
def dropPlus : List Char → List Char
  | '+' :: cs => cs
  | cs => cs

/-- The word that a text denotes. -/
def read? (s : String) : Option Nat :=
  (natural? 10 (dropPlus s.toList)).filter (· < bound)

end Word

end DocTemplate.Text
