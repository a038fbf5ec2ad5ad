/-
Template files.

A file is read as YAML when its name has the extension `yaml` or `yml`, in any
case, and as JSON otherwise.  An extension is what follows the last point of a
name, if something stands before that point.
-/
import DocTemplate.Run.Timed
import DocTemplate.Text.Pieces
import DocTemplate.Yaml.Document

namespace DocTemplate

/-- A file with a name; without contents it is not there. -/
structure TemplateFile where
  name : String
  contents : Option ByteArray

namespace TemplateFile

open DocTemplate.Text

/-- The extension of a file name. -/
def extension? (name : String) : Option String :=
  match (pieces '.' name.toList).reverse with
  | last :: before =>
    -- In `.name` and in a name without a point there is no extension.
    if before.all List.isEmpty && before.length ≤ 1 then none else some (String.ofList last)
  | [] => none

/-- Whether a file name is that of a YAML file. -/
def isYaml (name : String) : Bool :=
  match extension? name with
  | some e => let e := e.map Char.toLower; e == "yaml" || e == "yml"
  | none => false

/-- The text of a file. -/
def text (f : TemplateFile) : Except Error String :=
  match f.contents with
  | none => .error (.io "No such file or directory (os error 2)")
  | some bytes =>
    match String.fromUTF8? bytes with
    | some text => .ok text
    | none => .error (.io "stream did not contain valid UTF-8")

/-- The template in a text, in one of the two notations. -/
def templateOf (yaml : Bool) (text : String) : Except Error Json :=
  if yaml then
    match Yaml.documentOf? text with
    | some doc => .ok doc
    | none => .error (.malformed "no YAML document")
  else
    match Json.ofText? text with
    | some doc => .ok doc
    | none => .error (.malformed "no JSON document")

/-- The template in a file. -/
def load (f : TemplateFile) : Run Json := do
  let text ← Run.ofExcept f.text
  Run.log (.fileRead f.name (isYaml f.name))
  Run.ofExcept (templateOf (isYaml f.name) text)

end TemplateFile

end DocTemplate
