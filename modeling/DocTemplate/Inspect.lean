/-
Inspection texts.

A record is written as its name and its fields in braces, a list in brackets,
an optional value as `Some(…)` or `None`.
-/
import DocTemplate.Engine.Basic
import DocTemplate.Text.Quoted

namespace DocTemplate.Inspect

open DocTemplate.Text

/-- A text between braces. -/
def braced (inside : String) : String := "\x7b" ++ inside ++ "\x7d"

/-- Texts in brackets. -/
def list (items : List String) : String := "[" ++ String.intercalate ", " items ++ "]"

/-- A record with fields. -/
def record (name : String) (fields : List (String × String)) : String :=
  name ++ " " ++ braced (" " ++ String.intercalate ", "
    (fields.map fun (field, value) => field ++ ": " ++ value) ++ " ")

/-- An optional count. -/
def optional : Option Nat → String
  | none => "None"
  | some n => "Some(" ++ toString n ++ ")"

/-- Names in ascending order. -/
def names (ns : List String) : String := list (ns.map quotedText)

mutual

/-- The inspection text of a document. -/
def json : Json → String
  | .null => "Null"
  | .bool b => "Bool(" ++ toString b ++ ")"
  | .number n => "Number(" ++ n.text ++ ")"
  | .string s => "String(" ++ quotedText s ++ ")"
  | .array items => "Array " ++ list (jsonItems items)
  | .object members => "Object " ++ braced (String.intercalate ", " (jsonMembers members))

/-- The inspection texts of the items of an array. -/
def jsonItems : List Json → List String
  | [] => []
  | item :: items => json item :: jsonItems items

/-- The inspection texts of the members of an object. -/
def jsonMembers : List (String × Json) → List String
  | [] => []
  | (key, value) :: members => (quotedText key ++ ": " ++ json value) :: jsonMembers members

end

/-- The inspection text of a configuration. -/
def config (c : Config) : String :=
  record "JtRenderConfig"
    [("concurrency", optional c.concurrency),
      ("map_concurrency", optional c.mapConcurrency),
      ("yield_between_stages", toString c.yieldBetweenStages)]

/-- The inspection text of a registry. -/
def registry (r : Registry) : String :=
  record "JtHelperRegistry"
    [("instance", names r.own.keys), ("defaults", names Helper.builtIn.keys)]

/-- The inspection text of what a render works with. -/
def context (helpers : Registry) (options : Json) (c : Config) (partials : List String)
    (observed : Bool) : String :=
  record "JtRenderContext"
    [("helpers", registry helpers),
      ("options", json options),
      ("config", config c),
      ("partials", names partials),
      ("observer", toString observed)]

/-- The inspection text of what a template is rendered with. -/
def template (t : Template) : String :=
  context t.helpers t.options t.config t.partials.keys t.scene.observed

/-- The inspection text of an engine. -/
def engine (e : Engine) : String :=
  record "Jsont"
    [("helpers", registry e.helpers),
      ("partials", names e.partials.keys),
      ("config", config e.config),
      ("observer", toString e.observed)]

/-- The inspection text of a batch. -/
def batch {α : Type} (b : Batch α) : String :=
  record "JtBatch"
    [("label", quotedText b.label),
      ("tasks", toString b.tasks.length),
      ("concurrency", optional b.ceiling),
      ("observer", toString b.observed)]

end DocTemplate.Inspect
