/-
What a plain scalar of a YAML document denotes.

The texts for null, the booleans, integers in four bases and decimal fractions
are those of the core schema.  An integer beyond 128 bits is read as a
fraction if it is decimal; one between 64 and 128 bits is `oversized`, which no
document can hold.  Digits behind a leading zero are a text.
-/
import DocTemplate.Decimal.Literal
import DocTemplate.Json.Basic

namespace DocTemplate.Yaml

open DocTemplate.Decimal DocTemplate.Text

/-- What a plain scalar denotes. -/
inductive Scalar where
  | null
  | bool (value : Bool)
  | integer (value : Int)
  /-- An integer of more than 64 bits. -/
  | oversized
  /-- A fraction. -/
  | double (negative : Bool) (value : Binary64)
  /-- Infinity, or not a number. -/
  | notFinite
  | text

namespace Scalar

/-- A text without a sign in front, and whether that was a minus. -/
def sign : List Char → Bool × List Char
  | '-' :: cs => (true, cs)
  | '+' :: cs => (false, cs)
  | cs => (false, cs)

/-- Whether a text is digits behind a leading zero, with or without a sign. -/
def hasLeadingZero (cs : List Char) : Bool :=
  match (sign cs).2 with
  | '0' :: d :: ds => (d :: ds).all Char.isDigit
  | _ => false

/-- The magnitude of an integer in the base that its first characters tell. -/
def magnitude? : List Char → Option Nat
  | '0' :: 'x' :: cs => natural? 16 cs
  | '0' :: 'o' :: cs => natural? 8 cs
  | '0' :: 'b' :: cs => natural? 2 cs
  | cs => natural? 10 cs

/-- The integer that a text denotes. -/
def integer? (cs : List Char) : Option Int :=
  if hasLeadingZero cs then none
  else
    let (negative, digits) := sign cs
    (magnitude? digits).map fun n => if negative then -n else n

/-- The word that a text denotes; a minus is no part of one, not even before
zero. -/
def word? (text : String) : Option Nat :=
  let (negative, _) := sign text.toList
  (integer? text.toList).bind fun n =>
    if negative || 1 <<< 64 ≤ n then none else some n.toNat

/-- The literal of a fraction: digits before or behind a point, and an
exponent. -/
def literal? (cs : List Char) : Option Literal := do
  let (negative, cs) := sign cs
  let (whole, cs) := Literal.digits cs
  let (fraction, cs) := match cs with
    | '.' :: cs => let (ds, rest) := Literal.digits cs; (some ds, rest)
    | cs => (none, cs)
  if whole.isEmpty && (fraction.getD []).isEmpty then none
  let (exponent, cs) ← Literal.exponentPart cs
  if cs.isEmpty then return { negative, whole, fraction, exponent } else none

/-- The texts for what is not a finite number. -/
def notFiniteTexts : List String :=
  [".inf", ".Inf", ".INF", "+.inf", "+.Inf", "+.INF", "-.inf", "-.Inf", "-.INF",
    ".nan", ".NaN", ".NAN"]

/-- The fraction that a text denotes. -/
def double? (cs : List Char) : Option Scalar :=
  if hasLeadingZero cs then none
  else if notFiniteTexts.contains (String.ofList cs) then some .notFinite
  else do
    let l ← literal? cs
    return .double l.negative (← l.nearest)

/-- The bound of 128-bit magnitudes. -/
def wideBound (n : Int) : Bool := -(1 <<< 127) ≤ n && n < 1 <<< 128

/-- What the text of a plain scalar denotes. -/
def ofPlain (text : String) : Scalar :=
  let cs := text.toList
  if ["", "~", "null", "Null", "NULL"].contains text then .null
  else if ["true", "True", "TRUE"].contains text then .bool true
  else if ["false", "False", "FALSE"].contains text then .bool false
  else
    match integer? cs with
    | some n =>
      if -(1 <<< 63) ≤ n ∧ n < 1 <<< 64 then .integer n
      -- Past 128 bits the digits are those of a fraction.
      else if wideBound n then .oversized
      else (double? cs).getD .text
    | none => (double? cs).getD .text

/-- The document that a plain scalar stands for; none when it is oversized. -/
def toJson? (text : String) : Option Json :=
  match ofPlain text with
  | .null | .notFinite => some .null
  | .bool b => some (.bool b)
  | .integer n => some (.number (.integer n))
  | .oversized => none
  | .double negative x => some (.number (.ofBinary negative x))
  | .text => some (.string text)

end Scalar

end DocTemplate.Yaml
