/-
Nonnegative double-precision numbers in exact arithmetic.

A finite double is `significand * 2 ^ scale / 2 ^ 1074` with a significand
below `2 ^ 53`; it is *normal* when the significand is at least `2 ^ 52`, and
only numbers of scale zero need not be.  Everything is done with natural
numbers:

* `round num den` — the double nearest to a quotient, a tie going to the even
  significand; none when the quotient is too large;
* `mul`, `div` — the exact product or quotient, rounded once;
* `toBits`, `ofBits` — the storage format, without the sign.
-/
namespace DocTemplate.Decimal

/-- The quotient rounded to the nearest natural number, a half to the even one. -/
def divEven (num den : Nat) : Nat :=
  let q := num / den
  let r := num % den
  if 2 * r < den then q
  else if den < 2 * r then q + 1
  else if q % 2 = 0 then q else q + 1

/-- A finite nonnegative double, `significand * 2 ^ scale / 2 ^ 1074`. -/
structure Binary64 where
  significand : Nat
  scale : Nat
  deriving DecidableEq, Repr

namespace Binary64

/-- All doubles are multiples of the reciprocal of this number. -/
def unit : Nat := 1 <<< 1074

/-- The greatest scale of a finite double. -/
def maxScale : Nat := 2045

/-- The double zero. -/
def zero : Binary64 := ⟨0, 0⟩

/-- Whether a double is zero. -/
def isZero (x : Binary64) : Bool := x.significand == 0

/-- The value as a multiple of the reciprocal of `unit`. -/
def ticks (x : Binary64) : Nat := x.significand <<< x.scale

/-- The double nearest to `num / den`; none when that is out of range. -/
def round (num den : Nat) : Option Binary64 :=
  -- The scale at which the quotient has 53 digits to the base two, if it has so many.
  let scale := (num * unit / den).log2 - 52
  let significand := divEven (num * unit) (den <<< scale)
  -- Rounding up may carry into one digit more.
  let x : Binary64 :=
    if significand = 1 <<< 53 then ⟨1 <<< 52, scale + 1⟩ else ⟨significand, scale⟩
  if x.scale ≤ maxScale then some x else none

/-- The double nearest to a product. -/
def mul (x y : Binary64) : Option Binary64 := round (x.ticks * y.ticks) (unit * unit)

/-- The double nearest to a quotient. -/
def div (x y : Binary64) : Option Binary64 := round x.ticks y.ticks

/-- The bits of a double without its sign. -/
def toBits (x : Binary64) : Nat :=
  if x.significand < 1 <<< 52 then x.significand
  else ((x.scale + 1) <<< 52) + (x.significand - (1 <<< 52))

/-- The double with given bits; the bits do not hold a sign. -/
def ofBits (bits : Nat) : Binary64 :=
  let exponent := bits >>> 52
  let fraction := bits % (1 <<< 52)
  if exponent = 0 then ⟨fraction, 0⟩ else ⟨(1 <<< 52) + fraction, exponent - 1⟩

end Binary64

end DocTemplate.Decimal
