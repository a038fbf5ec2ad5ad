/-
Helpers that fail or panic.
-/
import DocTemplate.Catalog.Values

namespace DocTemplate.Catalog

/-- Fail with the first argument as the message. -/
def fail (args : List String) : Except Error Json := .error (.invalid (args.head?.getD "boom"))

/-- Fail when the text of the input is the first argument. -/
def failIf (args : List String) (input : Json) : Except Error Json :=
  if input.compact = firstArg args then .error (.invalid ("hit " ++ input.compact)) else .ok input

/-- The error of a kind with a text. -/
def errorOf (kind text : String) : Error :=
  match kind with
  | "InvalidHelper" => .unknownHelper text "p"
  | "Helper" => .helperFailed text "p" "inner"
  | "Panic" => .panicked "p" text
  | "Assemble" => .unwritable "p" text
  | "Io" => .io text
  | "Serde" => .malformed text
  | "Internal" => .internal text
  | _ => .invalid text

/-- Fail with the kind and the text that the arguments give. -/
def raise (args : List String) : Except Error Json :=
  .error (errorOf (firstArg args) (firstArg args.tail))

/-- Panic with the first argument as the payload. -/
def explode : Helper := fun _ args _ => pure (.panic (some (args.head?.getD "kaboom")))

/-- Panic with a payload that is no text. -/
def explodeAny : Helper := fun _ _ _ => pure (.panic none)

/-- The helpers of this module. -/
def failures : List (String × Helper) :=
  [("fail", .ofFunction fun args _ => fail args),
    ("failif", .ofFunction failIf),
    ("raise", .ofFunction fun args _ => raise args),
    ("explode", explode),
    ("explode_any", explodeAny)]

end DocTemplate.Catalog
