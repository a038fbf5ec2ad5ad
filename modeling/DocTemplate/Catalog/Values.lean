/-
Helpers that compute a value from their input and arguments.

Numbers are signed 64-bit words; what is no such number counts as zero, and
`inc` and `sum` wrap around.
-/
import DocTemplate.Helper.Basic
import DocTemplate.Json.Printer

namespace DocTemplate.Catalog

/-- The first argument, empty where there is none. -/
def firstArg (args : List String) : String := args.head?.getD ""

/-- The number that a document is, or zero. -/
def intOf (doc : Json) : Int := doc.signed?.getD 0

/-- An integer as a document. -/
def ofInt (n : Int) : Json := .number (.integer n)

/-- The signed 64-bit word that an integer wraps to. -/
def wrap64 (n : Int) : Int := n.bmod (1 <<< 64)

/-- Twice the number, as long as that is a signed 64-bit word. -/
def double (input : Json) : Except Error Json :=
  let n := 2 * intOf input
  if -(1 <<< 63) ≤ n ∧ n < 1 <<< 63 then .ok (ofInt n) else .error (.invalid "overflow")

/-- The next number. -/
def inc (input : Json) : Json := ofInt (wrap64 (intOf input + 1))

/-- The sum of the numbers in an array. -/
def sum (input : Json) : Json :=
  ofInt (wrap64 ((input.itemsOrNil.filterMap Json.signed?).foldl (· + ·) 0))

/-- The text with its letters of the Latin alphabet made large. -/
def upper (input : Json) : Json := .string ((input.text?.getD "").map Char.toUpper)

/-- The text of a document inside a joined text: raw for a text. -/
def joinText (doc : Json) : String := doc.text?.getD doc.compact

/-- The items of an array, with the first argument or a comma between them. -/
def join (args : List String) (input : Json) : Json :=
  .string (String.intercalate (args.head?.getD ",") (input.itemsOrNil.map joinText))

/-- The member under the key that the first argument names. -/
def pick (args : List String) (input : Json) : Json := input.memberOrNull (firstArg args)

/-- The items of an array that are positive numbers. -/
def positive (input : Json) : Json := .array (input.itemsOrNil.filter fun item => 0 < intOf item)

/-- The number, which it must be. -/
def strict (input : Json) : Except Error Json :=
  match input.signed? with
  | some n => .ok (ofInt n)
  | none => .error (.invalid "not a number")

/-- The arguments and the input. -/
def echo (args : List String) (input : Json) : Json :=
  .objectOf [("args", .texts args), ("input", input)]

/-- The input as the only item of an array. -/
def wrap (input : Json) : Json := .array [input]

/-- The document that the first argument writes. -/
def parse (args : List String) : Except Error Json :=
  match Json.ofText? (firstArg args) with
  | some doc => .ok doc
  | none => .error (.invalid "bad json")

/-- The helpers of this module. -/
def values : List (String × Helper) :=
  [("double", .ofFunction fun _ v => double v),
    ("inc", .ofFunction fun _ v => .ok (inc v)),
    ("sum", .ofFunction fun _ v => .ok (sum v)),
    ("upper", .ofFunction fun _ v => .ok (upper v)),
    ("join", .ofFunction fun args v => .ok (join args v)),
    ("pick", .ofFunction fun args v => .ok (pick args v)),
    ("positive", .ofFunction fun _ v => .ok (positive v)),
    ("strict", .ofFunction fun _ v => strict v),
    ("echo", .ofFunction fun args v => .ok (echo args v)),
    ("wrap", .ofFunction fun _ v => .ok (wrap v)),
    ("json", .ofFunction fun args _ => parse args)]

end DocTemplate.Catalog
