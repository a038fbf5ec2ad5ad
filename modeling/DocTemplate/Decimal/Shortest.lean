/-
The shortest decimal that reads back as a given double.

A double stands for the interval of reals that round to it, the two ends
included exactly when its significand is even.  For one, two, … seventeen
digits `shortest` looks at the two multiples of the matching power of ten next
to the double; the first grid with a multiple inside the interval decides, of
two the nearer, and of two equally near the even one.

All numbers are taken times `10 ^ 345`, which makes every grid step a natural
number.
-/
import DocTemplate.Decimal.Binary64

namespace DocTemplate.Decimal

/-- A decimal `digits * 10 ^ exponent`. -/
structure Scaled where
  digits : Nat
  exponent : Int
  deriving DecidableEq, Repr

/-- The decimal digits of a natural number, the first one leading. -/
def digitsOf (n : Nat) : List Char := Nat.toDigits 10 n

/-- Drop the zeros that end a number, counting them, at most `fuel` of them. -/
def stripZeros : Nat → Nat → Nat × Nat
  | 0, n => (n, 0)
  | fuel + 1, n =>
    if n ≠ 0 ∧ n % 10 = 0 then
      let (m, k) := stripZeros fuel (n / 10)
      (m, k + 1)
    else (n, 0)

namespace Binary64

/-- The power of ten by which all numbers are lifted. -/
def lift : Nat := 345

/-- Four times the value, lifted, over `unit`. -/
def lifted (x : Binary64) : Nat := 4 * x.ticks * Nat.pow 10 lift

/-- The lower end of the interval that rounds to a double, on the scale of
`lifted`; it is nearer where the exponent changes. -/
def lower (x : Binary64) : Nat :=
  let gap := if x.significand = 1 <<< 52 ∧ 0 < x.scale then 1 else 2
  x.lifted - (gap <<< x.scale) * Nat.pow 10 lift

/-- The upper end of the interval that rounds to a double, on the scale of
`lifted`. -/
def upper (x : Binary64) : Nat := x.lifted + (2 <<< x.scale) * Nat.pow 10 lift

/-- Whether a point on the scale of `lifted` rounds to a double. -/
def covers (x : Binary64) (point : Nat) : Bool :=
  if x.significand % 2 = 0 then x.lower ≤ point && point ≤ x.upper
  else x.lower < point && point < x.upper

/-- The better of the two multiples of a grid step next to a double, if one of
them rounds to it. -/
def nearestOnGrid (x : Binary64) (step : Nat) : Option Nat :=
  let width := 4 * unit * step
  let below := x.lifted / width
  let above := below + 1
  match x.covers (below * width), x.covers (above * width) with
  | true, true => some (divEven x.lifted width)
  | true, false => some below
  | false, true => some above
  | false, false => none

/-- The shortest decimal that reads back as a positive double. -/
def shortest (x : Binary64) : Scaled :=
  -- The number of digits before the lifted point: a grid of `n + 1` digits
  -- has its step that many places less `n + 1`.
  let places := (digitsOf (x.lifted / (4 * unit))).length
  let found := (List.range 17).findSome? fun n =>
    let grid := places - (n + 1)
    (x.nearestOnGrid (Nat.pow 10 grid)).map fun d => (d, grid)
  let (d, grid) := found.getD (0, lift)
  -- A carry such as from 9.9 to 10 leaves zeros at the end.
  let (digits, zeros) := stripZeros 17 d
  ⟨digits, (grid + zeros : Int) - lift⟩

end Binary64

end DocTemplate.Decimal
