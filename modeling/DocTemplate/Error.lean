/-
What can go wrong.

An error that already names the stage it came from is *located*; `locate` gives
any other error the helper and the path of the stage that failed, once.
`message` is the wording, `tag` the name of the kind, and `toJson` and
`ofJson?` the written form: an object whose only key is the tag.
-/
import DocTemplate.Json.Update

namespace DocTemplate

/-- What went wrong. -/
inductive Error where
  | io (text : String)
  | malformed (text : String)
  | invalid (text : String)
  | unknownHelper (helper path : String)
  | helperFailed (helper path text : String)
  | panicked (path text : String)
  | unwritable (path text : String)
  | internal (text : String)
  deriving DecidableEq, Repr

namespace Error

/-- The wording of an error. -/
def message : Error → String
  | .io text => "io error: " ++ text
  | .malformed text => "serialization error: " ++ text
  | .invalid text => "validation error: " ++ text
  | .unknownHelper helper path => "Invalid helper \"" ++ helper ++ "\" at " ++ path
  | .helperFailed helper path text =>
    "helper '" ++ helper ++ "' failed at " ++ path ++ ": " ++ text
  | .panicked path text => "helper panicked at " ++ path ++ ": " ++ text
  | .unwritable path text => "cannot write output at " ++ path ++ ": " ++ text
  | .internal text => "internal error: " ++ text

/-- The name of a kind of error. -/
def tag : Error → String
  | .io _ => "Io"
  | .malformed _ => "Serde"
  | .invalid _ => "Validation"
  | .unknownHelper .. => "InvalidHelper"
  | .helperFailed .. => "Helper"
  | .panicked .. => "Panic"
  | .unwritable .. => "Assemble"
  | .internal _ => "Internal"

/-- Whether an error names the stage it came from. -/
def isLocated : Error → Bool
  | .unknownHelper .. | .helperFailed .. | .panicked .. | .unwritable .. => true
  | _ => false

/-- An error as it leaves the stage of a helper on a path. -/
def locate (helper : String) (path : Path) (e : Error) : Error :=
  if e.isLocated then e else .helperFailed helper path.display e.message

/-- The text of a panic; a payload need not be one. -/
def payloadText (payload : Option String) : String := payload.getD "unknown panic"

/-- The error of a value that cannot be written at a path. -/
def ofWriteFault (path : Path) (fault : Json.WriteFault) : Error :=
  .unwritable path.display fault.message

theorem isLocated_locate (helper : String) (path : Path) (e : Error) :
    (e.locate helper path).isLocated = true := by
  unfold locate
  split
  · assumption
  · rfl

/-! ### Written form -/

/-- The content of an error below its tag. -/
def content : Error → Json
  | .io text | .malformed text | .internal text => .string text
  | .invalid text => .objectOf [("message", .string text)]
  | .unknownHelper helper path => .objectOf [("helper", .string helper), ("path", .string path)]
  | .helperFailed helper path text =>
    .objectOf [("helper", .string helper), ("path", .string path), ("message", .string text)]
  | .panicked path text | .unwritable path text =>
    .objectOf [("path", .string path), ("message", .string text)]

/-- An error as a document. -/
def toJson (e : Error) : Json := .objectOf [(e.tag, e.content)]

/-- A text in an object under a key. -/
def textField? (content : Json) (key : String) : Option String := do (← content.member? key).text?

/-- The error with a tag and content. -/
def ofContent? (tag : String) (content : Json) : Option Error :=
  match tag with
  | "Io" => content.text?.map .io
  | "Serde" => content.text?.map .malformed
  | "Internal" => content.text?.map .internal
  | "Validation" => (textField? content "message").map .invalid
  | "InvalidHelper" => do
    return .unknownHelper (← textField? content "helper") (← textField? content "path")
  | "Helper" => do
    return .helperFailed (← textField? content "helper") (← textField? content "path")
      (← textField? content "message")
  | "Panic" => do
    return .panicked (← textField? content "path") (← textField? content "message")
  | "Assemble" => do
    return .unwritable (← textField? content "path") (← textField? content "message")
  | _ => none

/-- The error that a document stands for: an object with one member. -/
def ofJson? : Json → Option Error
  | .object [(tag, content)] => ofContent? tag content
  | _ => none

end Error

end DocTemplate
