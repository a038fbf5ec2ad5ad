/-
Bindings: the pipelines of a template, ready to run.

A binding is a leaf of a template whose text is a pipeline, with the path to
it.  Its first stage gives a value, from a quoted text or a data path; every
later stage names a helper.  `Template.Source.compile` finds the bindings of a
template in the order of the document; a template that is itself a text has
none.
-/
import DocTemplate.DataPath
import DocTemplate.Path
import DocTemplate.Pipeline.Call

namespace DocTemplate

/-- One step of a binding. -/
inductive Stage where
  | literal (value : Json)
  | data (path : DataPath)
  | call (name : String) (args : List String)
  deriving DecidableEq, Repr

namespace Stage

/-- The name of the helper that a stage calls. -/
def helperName? : Stage → Option String
  | .call name _ => some name
  | _ => none

/-- The stage of a first call: a quoted name is a literal, any other a data
path. -/
def ofFirst (c : Call) : Stage :=
  match Pipeline.literal? c.name with
  | some text => .literal (.string text)
  | none => .data (DataPath.parse c.name)

/-- The stage of a later call. -/
def ofLater (c : Call) : Stage := .call c.name c.args

/-- The stages of the calls of a pipeline. -/
def ofCalls : List Call → List Stage
  | [] => []
  | first :: others => ofFirst first :: others.map ofLater

/-- A stage as a document. -/
def toJson : Stage → Json
  | .literal value => .objectOf [("literal", value)]
  | .data path => .objectOf [("accessor", .texts path.segments)]
  | .call name args => .objectOf [("helper", .string name), ("args", .texts args)]

end Stage

/-- A pipeline at a place in a template. -/
structure Binding where
  path : Path
  expression : String
  stages : List Stage
  deriving DecidableEq, Repr

namespace Binding

/-- The binding of a leaf with a text, if the text is a pipeline. -/
def ofLeaf? (text : String) (path : Path) : Option Binding :=
  (Pipeline.expression? text).map fun expression =>
    ⟨path, expression, Stage.ofCalls (Pipeline.calls expression)⟩

mutual

/-- The bindings at and below a value at a path. -/
def below (path : Path) : Json → List Binding
  | .string text => (ofLeaf? text path).toList
  | .array items => belowItems path 0 items
  | .object members => belowMembers path members
  | _ => []

/-- The bindings below the items of an array, the first of which has a given
index. -/
def belowItems (path : Path) (index : Nat) : List Json → List Binding
  | [] => []
  | item :: items => below (path.child (.index index)) item ++ belowItems path (index + 1) items

/-- The bindings below the members of an object. -/
def belowMembers (path : Path) : List (String × Json) → List Binding
  | [] => []
  | (key, value) :: members => below (path.child (.name key)) value ++ belowMembers path members

end

/-- The bindings of a template; a bare text is not looked into. -/
def ofTemplate : Json → List Binding
  | .string _ => []
  | template => below [] template

end Binding

end DocTemplate
