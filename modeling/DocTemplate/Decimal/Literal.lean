/-
Number literals: a sign, whole digits, an optional fraction, an optional
exponent.

* `Literal.scan` — the literal at the front of a text, with what follows it;
* `Literal.approximate` — its value by a 64-bit significand: digits that no
  longer fit are dropped, the significand and the power of ten are each
  rounded to a double, and so is their product or quotient;
* `Literal.nearest` — the double nearest to its value.
-/
import DocTemplate.Decimal.Binary64
import DocTemplate.Text.Word

namespace DocTemplate.Decimal

open DocTemplate.Text

/-- A number as it is written. -/
structure Literal where
  negative : Bool
  whole : List Nat
  fraction : Option (List Nat)
  exponent : Option Int
  deriving DecidableEq, Repr

namespace Literal

/-- The digits at the front of a text, and the rest. -/
def digits : List Char → List Nat × List Char
  | [] => ([], [])
  | c :: cs =>
    match digitValue? c with
    | some d => let (ds, rest) := digits cs; (d :: ds, rest)
    | none => ([], c :: cs)

/-- The whole part of a literal: a zero alone or digits without a leading zero. -/
def wholePart : List Char → Option (List Nat × List Char)
  | '0' :: cs => some ([0], cs)
  | cs =>
    match digits cs with
    | ([], _) => none
    | (ds, rest) => some (ds, rest)

/-- The fraction of a literal; a point without a digit after it is an error. -/
def fractionPart : List Char → Option (Option (List Nat) × List Char)
  | '.' :: cs =>
    match digits cs with
    | ([], _) => none
    | (ds, rest) => some (some ds, rest)
  | cs => some (none, cs)

/-- A signed run of digits; no digit is an error. -/
def signedDigits : List Char → Option (Int × List Char)
  | '-' :: cs => magnitude cs |>.map fun (n, rest) => (-n, rest)
  | '+' :: cs => magnitude cs
  | cs => magnitude cs
where
  /-- Digits and the number they write. -/
  magnitude (cs : List Char) : Option (Int × List Char) :=
    match digits cs with
    | ([], _) => none
    | (ds, rest) => some (naturalOfDigits 10 ds, rest)

/-- The exponent of a literal. -/
def exponentPart : List Char → Option (Option Int × List Char)
  | c :: cs =>
    if c = 'e' ∨ c = 'E' then (signedDigits cs).map fun (n, rest) => (some n, rest)
    else some (none, c :: cs)
  | [] => some (none, [])

/-- The literal at the front of a text, and the rest. -/
def scan (cs : List Char) : Option (Literal × List Char) := do
  let (negative, cs) := match cs with
    | '-' :: cs => (true, cs)
    | cs => (false, cs)
  let (whole, cs) ← wholePart cs
  let (fraction, cs) ← fractionPart cs
  let (exponent, cs) ← exponentPart cs
  return ({ negative, whole, fraction, exponent }, cs)

/-- Whether a literal has neither a fraction nor an exponent. -/
def isWhole (l : Literal) : Bool := l.fraction.isNone && l.exponent.isNone

/-- Whole digits taken while the significand stays a 64-bit word, and how many
were dropped. -/
def takeWhole (significand : Nat) : List Nat → Nat × Nat
  | [] => (significand, 0)
  | d :: ds =>
    if significand * 10 + d < Word.bound then takeWhole (significand * 10 + d) ds
    else (significand, ds.length + 1)

/-- Fraction digits taken while the significand stays a 64-bit word, and how
many were taken. -/
def takeFraction (significand : Nat) : List Nat → Nat × Nat
  | [] => (significand, 0)
  | d :: ds =>
    if significand * 10 + d < Word.bound then
      let (s, taken) := takeFraction (significand * 10 + d) ds
      (s, taken + 1)
    else (significand, 0)

/-- The power of ten up to which powers are exact enough to multiply by. -/
def maxPower : Nat := 308

/-- A double divided by a power of ten, in steps of at most `maxPower`. -/
def scaleDown (x : Binary64) (n : Nat) : Option Binary64 :=
  if n ≤ maxPower then do x.div (← Binary64.round (Nat.pow 10 n) 1)
  else if x.isZero then some x
  else do scaleDown (← x.div (← Binary64.round (Nat.pow 10 maxPower) 1)) (n - maxPower)
termination_by n
decreasing_by simp [maxPower] at *; omega

/-- A double multiplied by a power of ten. -/
def scaleUp (x : Binary64) (n : Nat) : Option Binary64 :=
  if n ≤ maxPower then do x.mul (← Binary64.round (Nat.pow 10 n) 1)
  else if x.isZero then some x
  else none

/-- The magnitude of a literal by a 64-bit significand; none when it is too
large for a double. -/
def approximate (l : Literal) : Option Binary64 := do
  let (s, dropped) := takeWhole 0 l.whole
  let (s, taken) := takeFraction s (l.fraction.getD [])
  let power : Int := dropped - taken + l.exponent.getD 0
  let x ← Binary64.round s 1
  if 0 ≤ power then scaleUp x power.toNat else scaleDown x (-power).toNat

/-- A decimal below `10 ^ -horizon` rounds to zero, one from `10 ^ horizon` on
is out of range. -/
def horizon : Int := 400

/-- The double nearest to the magnitude of a literal; none when it is too large
for a double. -/
def nearest (l : Literal) : Option Binary64 :=
  let fraction := l.fraction.getD []
  let n := naturalOfDigits 10 (l.whole ++ fraction)
  let power : Int := l.exponent.getD 0 - fraction.length
  let top : Int := power + (Nat.toDigits 10 n).length
  -- The magnitude lies below `10 ^ top`, and not below `10 ^ (top - 1)`.
  if n = 0 ∨ top < -horizon then some .zero
  else if horizon < top then none
  else if 0 ≤ power then Binary64.round (n * Nat.pow 10 power.toNat) 1
  else Binary64.round n (Nat.pow 10 (-power).toNat)

end Literal

end DocTemplate.Decimal
