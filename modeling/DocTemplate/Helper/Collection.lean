/-
Helpers for collections: `map` and its boundaries.

`map` takes part of the chain it stands in.  The stages behind it up to the
first boundary, a stage named `reduce` or `collect`, run once for every element
of the array or object that comes in, as a batch; the results make up a
collection of the same shape.  The boundary then goes on with that collection,
or, where there is none, the chain ends with it.

The boundaries themselves pass their input on.
-/
import DocTemplate.Batch.Basic
import DocTemplate.Helper.Basic

namespace DocTemplate.Helper

/-- The names of the stages at which a `map` ends. -/
def boundaryNames : List String := ["reduce", "collect"]

/-- Whether a stage ends the part of a chain that a `map` takes. -/
def isBoundary (stage : Stage) : Bool :=
  match stage.helperName? with
  | some name => boundaryNames.contains name
  | none => false

/-- The distance to the first boundary. -/
def boundary? (stages : List Stage) : Option Nat := stages.findIdx? isBoundary

/-- The first remaining stages on every one of some values, as tasks. -/
def elements (ctx : HelperContext) (count : Nat) (values : List Json) : Batch Json where
  runner := ctx.runner
  label := "map:" ++ ctx.path.display
  ceiling := ctx.config.mapConcurrency
  observed := ctx.observed
  report := some
  tasks := values.map (ctx.runRemaining .task count)

/-- The results of running the first remaining stages on every one of some
values. -/
def runEach (ctx : HelperContext) (count : Nat) (values : List Json) : Run (List Json) :=
  (elements ctx count values).collect

/-- The collection of the results for the elements of a collection. -/
def mapElements (ctx : HelperContext) (count : Nat) : Json → Run Json
  | .array items => return .array (← runEach ctx count items)
  | .object members => do
    let values ← runEach ctx count (members.map Prod.snd)
    return .object ((Entries.keys members).zip values)
  | other => throw (.invalid ("Incompatible type for \x60map\x60: " ++ other.kind))

/-- Run the stages up to the first boundary for every element. -/
def map : Helper := ofRun fun ctx _ input => do
  let boundary := boundary? ctx.remaining
  let count := boundary.getD ctx.remaining.length
  let aggregate ← mapElements ctx count input
  Run.log (.elementsJoined ctx.path count boundary.isSome)
  -- The boundary itself stands behind the stages that ran for the elements.
  match boundary with
  | some stages => return .skip aggregate stages
  | none => return .exit aggregate

/-- Pass the input on. -/
def passOn : Helper := fun _ _ input => pure (.flow (.next input))

/-- Render a partial with the input as its data; null stays null. -/
def renderPartial : Helper := ofRun fun ctx args input => do
  if input.isNull then return .next .null
  match args with
  | [] => throw (.invalid "partial requires a template name")
  | name :: _ =>
    match ctx.partial? name with
    | none => throw (.invalid ("unknown partial \"" ++ name ++ "\""))
    | some render => return .next (← render input)

/-- The helpers that are there from the beginning. -/
def builtIn : Entries Helper :=
  [("collect", passOn), ("map", map), ("partial", renderPartial), ("reduce", passOn)]

end DocTemplate.Helper
