/-
JSON documents.

The members of an object are `Entries`: a list in ascending key order, at most
one member to a key.  `Json.WellFormed` says so for every object inside a
document and bounds the numbers; all readers produce well-formed documents and
all operations keep them so.
-/
import DocTemplate.Entries
import DocTemplate.Json.Number

namespace DocTemplate

/-- A JSON document. -/
inductive Json where
  | null
  | bool (value : Bool)
  | number (value : Json.Number)
  | string (value : String)
  | array (items : List Json)
  | object (members : List (String × Json))
  deriving Repr

namespace Json

instance : Inhabited Json := ⟨.null⟩

/-- A count as a document. -/
def count (n : Nat) : Json := .number (.ofNat n)

/-- A list of texts as a document. -/
def texts (ts : List String) : Json := .array (ts.map .string)

/-- An object from members in any order. -/
def objectOf (members : List (String × Json)) : Json := .object (Entries.ofList members)

/-- The word for what a document is. -/
def kind : Json → String
  | .null => "null"
  | .bool _ => "boolean"
  | .number _ => "number"
  | .string _ => "string"
  | .array _ => "array"
  | .object _ => "object"

/-- Whether a document is null. -/
def isNull : Json → Bool
  | .null => true
  | _ => false

/-- The member of an object under a key; other documents have none. -/
def member? : Json → String → Option Json
  | .object members, key => Entries.find? members key
  | _, _ => none

/-- The member of an object under a key, null where there is none. -/
def memberOrNull (doc : Json) (key : String) : Json := (doc.member? key).getD .null

/-- The items of an array; other documents have none. -/
def itemsOrNil : Json → List Json
  | .array items => items
  | _ => []

/-- The text that a document is. -/
def text? : Json → Option String
  | .string s => some s
  | _ => none

/-- The number in the range of signed 64-bit words that a document is. -/
def signed? : Json → Option Int
  | .number (.integer n) => if -(1 <<< 63) ≤ n ∧ n < 1 <<< 63 then some n else none
  | _ => none

/-- The number in the range of unsigned 64-bit words that a document is. -/
def word? : Json → Option Nat
  | .number (.integer n) => if 0 ≤ n ∧ n < 1 <<< 64 then some n.toNat else none
  | _ => none

/-- A number is an integer within its range or a finite double. -/
def Number.InRange : Number → Prop
  | .integer n => -(1 <<< 63) ≤ n ∧ n < 1 <<< 64
  | .double bits => bits.toNat / (1 <<< 52) % (1 <<< 11) ≠ (1 <<< 11) - 1

/-- Every object has strictly ascending keys and every number is in range. -/
inductive WellFormed : Json → Prop where
  | null : WellFormed .null
  | bool (b : Bool) : WellFormed (.bool b)
  | number {n : Number} (h : n.InRange) : WellFormed (.number n)
  | string (s : String) : WellFormed (.string s)
  | array {items : List Json} (h : ∀ item ∈ items, WellFormed item) : WellFormed (.array items)
  | object {members : List (String × Json)} (hkeys : Entries.Ascending members)
      (h : ∀ m ∈ members, WellFormed m.2) : WellFormed (.object members)

end Json

end DocTemplate
