/-
Numbers of JSON documents.

A number is an integer of the range `-2 ^ 63 … 2 ^ 64 - 1` or a double, the
latter kept as its 64 bits so that equality is decidable and tells the two
zeros apart.  `Number.text` writes integers in full and doubles with the
fewest digits that read back, always with a point or an exponent.
-/
import DocTemplate.Decimal.Shortest

namespace DocTemplate.Json

open DocTemplate.Decimal

/-- A number of a JSON document. -/
inductive Number where
  | integer (value : Int)
  | double (bits : UInt64)
  deriving DecidableEq, Repr

namespace Number

/-- The bit that holds the sign of a double. -/
def signBit : Nat := 1 <<< 63

/-- The double of a sign and a magnitude. -/
def ofBinary (negative : Bool) (x : Binary64) : Number :=
  .double (UInt64.ofNat (x.toBits + if negative then signBit else 0))

/-- A natural number as the count of something. -/
def ofNat (n : Nat) : Number := .integer n

/-- An exponent with its sign, which is always written. -/
def exponentText (n : Int) : List Char :=
  if n < 0 then '-' :: digitsOf n.natAbs else '+' :: digitsOf n.natAbs

/-- A decimal written out: positional from `1e-5` up to below `1e16`, with an
exponent otherwise, and always with a point or an exponent. -/
def scaledText (d : Scaled) : String :=
  let digits := digitsOf d.digits
  let length : Int := digits.length
  let point := length + d.exponent
  let zeros (n : Int) := List.replicate n.toNat '0'
  String.ofList <|
    -- A whole number, then one with digits on both sides of the point, then one
    -- below the unit, then all others.
    if 0 ≤ d.exponent ∧ point ≤ 16 then
      digits ++ zeros d.exponent ++ ['.', '0']
    else if 0 < point ∧ point ≤ 16 then
      digits.take point.toNat ++ '.' :: digits.drop point.toNat
    else if -5 < point ∧ point ≤ 0 then
      '0' :: '.' :: zeros (-point) ++ digits
    else
      let mantissa := match digits with
        | [d] => [d]
        | d :: ds => d :: '.' :: ds
        | [] => []
      mantissa ++ 'e' :: exponentText (point - 1)

/-- A nonnegative double written out. -/
def binaryText (x : Binary64) : String :=
  if x.isZero then "0.0" else scaledText x.shortest

/-- The text of a number. -/
def text : Number → String
  | .integer n => toString n
  | .double bits =>
    let n := bits.toNat
    if n < signBit then binaryText (Binary64.ofBits n)
    else "-" ++ binaryText (Binary64.ofBits (n - signBit))

end Number

end DocTemplate.Json
