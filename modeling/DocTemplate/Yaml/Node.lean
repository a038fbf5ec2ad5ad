/-
The tree of a YAML document.

A scalar is plain or quoted; only a plain one can denote something other than
its text.  `Node.toJson?` is the document a tree stands for: a key must be a
scalar and stands for its text, and of several values under one key the last
one counts.
-/
import DocTemplate.Yaml.Scalar

namespace DocTemplate.Yaml

/-- The tree of a YAML document. -/
inductive Node where
  | plain (text : String)
  | quoted (text : String)
  | sequence (items : List Node)
  | mapping (entries : List (Node × Node))

namespace Node

/-- The node that is not written. -/
def empty : Node := .plain ""

/-- The text of a scalar. -/
def scalarText? : Node → Option String
  | .plain t => some t
  | .quoted t => some t
  | _ => none

/-- The greatest number of collections inside one another. -/
def maxDepth : Nat := 128

mutual

/-- The document of a tree whose collections may be nested `depth` deep. -/
def toJsonWithin (depth : Nat) : Node → Option Json
  | .plain t => Scalar.toJson? t
  | .quoted t => some (.string t)
  | .sequence items => if depth = 0 then none else (itemsToJson (depth - 1) items).map .array
  | .mapping entries =>
    if depth = 0 then none else (entriesToJson (depth - 1) [] entries).map .object

/-- The documents of the items of a sequence. -/
def itemsToJson (depth : Nat) : List Node → Option (List Json)
  | [] => some []
  | item :: items => do
    let doc ← toJsonWithin depth item
    return doc :: (← itemsToJson depth items)

/-- Entries added to the members read so far. -/
def entriesToJson (depth : Nat) (read : Entries Json) :
    List (Node × Node) → Option (Entries Json)
  | [] => some read
  | (key, value) :: entries => do
    let doc ← toJsonWithin depth value
    entriesToJson depth (read.put (← key.scalarText?) doc) entries

end

/-- The document that a tree stands for. -/
def toJson? (n : Node) : Option Json := n.toJsonWithin maxDepth

end Node

end DocTemplate.Yaml
