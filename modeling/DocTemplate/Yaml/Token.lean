/-
The tokens of a YAML text.

Block collections have tokens for their begin and end, which no character of
the text writes: they come from the columns.
-/
namespace DocTemplate.Yaml

/-- The least parts of a YAML text. -/
inductive Token where
  | documentStart
  | documentEnd
  /-- A block sequence begins. -/
  | blockSequence
  /-- A block mapping begins. -/
  | blockMapping
  /-- A block collection ends. -/
  | blockEnd
  | openSequence
  | closeSequence
  | openMapping
  | closeMapping
  | comma
  /-- The dash of an item. -/
  | item
  | key
  | value
  | scalar (plain : Bool) (text : String)
  deriving DecidableEq, Repr

end DocTemplate.Yaml
