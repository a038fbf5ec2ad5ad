/-
Reading and writing a document at a path.

`at?` follows a path; `write` puts a value there.  All containers on the way
must exist already; the last step may replace or add a member of an object,
replace an item of an array, or append one right behind the last.
-/
import DocTemplate.Path

namespace DocTemplate.Json

/-- Why a value cannot be written at a path. -/
inductive WriteFault where
  | missingContainer (key : Path.Key)
  | indexIntoObject (position : Nat)
  | keyIntoArray (key : Path.Key) (length : Nat)
  | intoScalar (kind : String)
  deriving DecidableEq, Repr

/-- The wording of a fault. -/
def WriteFault.message : WriteFault → String
  | .missingContainer key => "missing container at " ++ key.display
  | .indexIntoObject i => "cannot write index " ++ toString i ++ " into object"
  | .keyIntoArray key n =>
    "cannot write key " ++ key.display ++ " into array of length " ++ toString n
  | .intoScalar kind => "cannot write into " ++ kind

/-- The part of a document one step below its root. -/
def child? : Json → Path.Key → Option Json
  | .object members, .name key => Entries.find? members key
  | .array items, .index i => items[i]?
  | _, _ => none

/-- The part of a document at a path. -/
def at? : Json → Path → Option Json
  | doc, [] => some doc
  | doc, key :: path => do (← doc.child? key).at? path

/-- A document with another value one step below its root, if there is a place
for it. -/
def writeChild (doc : Json) (key : Path.Key) (value : Json) : Except WriteFault Json :=
  match doc, key with
  | .object members, .name k => .ok (.object (Entries.put members k value))
  | .object _, .index i => .error (.indexIntoObject i)
  | .array items, .index i =>
    if i < items.length then .ok (.array (items.set i value))
    else if i = items.length then .ok (.array (items ++ [value]))
    else .error (.keyIntoArray key items.length)
  | .array items, .name _ => .error (.keyIntoArray key items.length)
  | _, _ => .error (.intoScalar doc.kind)

/-- A document with another value at a path. -/
def write : Json → Path → Json → Except WriteFault Json
  | _, [], value => .ok value
  | doc, [key], value => doc.writeChild key value
  | doc, key :: next :: path, value =>
    match doc.child? key with
    | none => .error (.missingContainer key)
    | some part => do doc.writeChild key (← part.write (next :: path) value)

@[simp] theorem at?_nil (doc : Json) : doc.at? [] = some doc := by simp [at?]

@[simp] theorem write_nil (doc value : Json) : doc.write [] value = .ok value := by simp [write]

end DocTemplate.Json
