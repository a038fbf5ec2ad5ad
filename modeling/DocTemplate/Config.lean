/-
The configuration of renders.

A ceiling bounds how many tasks are in flight at once; without one all start
together.  In writing every field may be missing, a ceiling may be null, fields
that are not known are passed over, and a field that is known may stand there
only once.
-/
import DocTemplate.Json.Source

namespace DocTemplate

/-- How a template is rendered. -/
structure Config where
  /-- The ceiling on bindings in flight. -/
  concurrency : Option Nat
  /-- The ceiling on elements in flight in one `map`. -/
  mapConcurrency : Option Nat
  /-- Whether a chain gives way to others between its stages. -/
  yieldBetweenStages : Bool
  deriving DecidableEq, Repr

namespace Config

/-- No ceilings, giving way between stages. -/
def standard : Config := ⟨none, none, true⟩

instance : Inhabited Config := ⟨standard⟩

/-- A ceiling as a document. -/
def ceilingJson : Option Nat → Json
  | none => .null
  | some n => .count n

/-- A configuration as a document. -/
def toJson (c : Config) : Json :=
  .objectOf [("concurrency", ceilingJson c.concurrency),
    ("map_concurrency", ceilingJson c.mapConcurrency),
    ("yield_between_stages", .bool c.yieldBetweenStages)]

/-! ### Reading -/

/-- What stands in the place of a field. -/
inductive Setting where
  | null
  | count (n : Nat)
  | flag (b : Bool)
  | other
  deriving DecidableEq, Repr

/-- The fields of a configuration. -/
inductive Field where
  | concurrency
  | mapConcurrency
  | yieldBetweenStages
  deriving DecidableEq, Repr

/-- The fields in their order in a list. -/
def Field.all : List Field := [.concurrency, .mapConcurrency, .yieldBetweenStages]

/-- The field with a name. -/
def Field.ofName? (name : String) : Option Field :=
  if name = "concurrency" then some .concurrency
  else if name = "map_concurrency" then some .mapConcurrency
  else if name = "yield_between_stages" then some .yieldBetweenStages
  else none

/-- The ceiling that a setting stands for. -/
def Setting.ceiling? : Setting → Option (Option Nat)
  | .null => some none
  | .count n => some (some n)
  | _ => none

/-- The flag that a setting stands for. -/
def Setting.flag? : Setting → Option Bool
  | .flag b => some b
  | _ => none

/-- A configuration with one field set. -/
def set? (c : Config) (field : Field) (value : Setting) : Option Config :=
  match field with
  | .concurrency => value.ceiling?.map fun n => { c with concurrency := n }
  | .mapConcurrency => value.ceiling?.map fun n => { c with mapConcurrency := n }
  | .yieldBetweenStages => value.flag?.map fun b => { c with yieldBetweenStages := b }

/-- The configuration with some fields set, each at most once. -/
def ofFields? (fields : List (Field × Setting)) : Option Config :=
  if (fields.map Prod.fst).Nodup then
    fields.foldlM (fun c f => c.set? f.1 f.2) standard
  else none

/-- The configuration with the settings of its first fields in order. -/
def ofList? (settings : List Setting) : Option Config :=
  if settings.length ≤ Field.all.length then ofFields? (Field.all.zip settings) else none

/-- What a number stands for as a setting. -/
def Setting.ofNumber : Json.Number → Setting
  | .integer n => if 0 ≤ n then .count n.toNat else .other
  | .double _ => .other

/-- What a document stands for as a setting. -/
def Setting.ofJson : Json → Setting
  | .null => .null
  | .bool b => .flag b
  | .number n => .ofNumber n
  | _ => .other

/-- What a written document stands for as a setting. -/
def Setting.ofSource : Json.Source → Setting
  | .null => .null
  | .bool b => .flag b
  | .number (some n) => .ofNumber n
  | _ => .other

/-- The configuration that a document stands for: an object or a list. -/
def ofJson? : Json → Option Config
  | .object members =>
    ofFields? (members.filterMap fun (key, value) =>
      (Field.ofName? key).map fun f => (f, .ofJson value))
  | .array items => ofList? (items.map .ofJson)
  | _ => none

/-- The configuration that a written document stands for.  The value of a field
that is not known may be anything that is grammatical. -/
def ofSource? : Json.Source → Option Config
  | .object members => do
    let keys ← members.mapM Prod.fst
    ofFields? ((keys.zip (members.map Prod.snd)).filterMap fun (key, value) =>
      (Field.ofName? key).map fun f => (f, .ofSource value))
  | .array items => ofList? (items.map .ofSource)
  | _ => none

/-- The configuration in a JSON text. -/
def ofJsonText? (text : String) : Option Config := do ofSource? (← Json.Source.ofText? text)

end Config

end DocTemplate
