/-
Places inside a document.

A path is the list of object keys and array indices that leads from the root
of a document to a part of it; it is displayed with points between its keys.
Two paths overlap when one leads through the other.
-/
import DocTemplate.Json.Equality

namespace DocTemplate

/-- One step of a path. -/
inductive Path.Key where
  | index (position : Nat)
  | name (text : String)
  deriving DecidableEq, Repr

/-- The steps from the root of a document to one of its parts. -/
abbrev Path := List Path.Key

namespace Path

/-- The text of a step. -/
def Key.display : Key → String
  | .index i => toString i
  | .name s => s

/-- A step as a document. -/
def Key.toJson : Key → Json
  | .index i => .count i
  | .name s => .string s

/-- The step that a document stands for: a word is an index, a text a key. -/
def Key.ofJson? (doc : Json) : Option Key :=
  match doc with
  | .string s => some (.name s)
  | _ => doc.word?.map .index

/-- The steps with points between them. -/
def display (p : Path) : String := String.intercalate "." (p.map Key.display)

/-- The path one step further. -/
def child (p : Path) (key : Key) : Path := p ++ [key]

/-- Whether the two paths agree as far as the shorter one goes. -/
def overlaps (p q : Path) : Bool :=
  let shared := min p.length q.length
  p.take shared == q.take shared

/-- A path as a document. -/
def toJson (p : Path) : Json := .array (p.map Key.toJson)

/-- The path that a document stands for: an array of steps. -/
def ofJson? : Json → Option Path
  | .array items => items.mapM Key.ofJson?
  | _ => none

end Path

end DocTemplate
