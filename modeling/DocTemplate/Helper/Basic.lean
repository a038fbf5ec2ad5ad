/-
Helpers.

A helper is called with its arguments and the value that comes down the chain,
in the context of the stage that names it.  It answers with a *flow*: go on
with the next stage, skip some stages, or end the chain.  It may also fail or
panic, and it may take time.

Of the context a helper sees the path of the binding, the options and the
configuration of the render, and the stages that remain behind its own; it may
run the first of these itself, render a partial, and ask which helpers there
are.  What it runs may panic, and a helper that does nothing about that panics
with it.
-/
import DocTemplate.Config
import DocTemplate.Pipeline.Binding
import DocTemplate.Run.Timed

namespace DocTemplate

/-- How a chain goes on after a stage. -/
inductive Flow where
  | next (value : Json)
  | skip (value : Json) (stages : Nat)
  | exit (value : Json)
  deriving DecidableEq, Repr

/-- How a call of a helper ends. -/
inductive Outcome where
  | flow (answer : Flow)
  | failure (error : Error)
  | panic (payload : Option String)

/-- What a helper sees of the render it takes part in. -/
structure HelperContext where
  /-- Who runs the chain. -/
  runner : Runner
  path : Path
  options : Json
  config : Config
  /-- Whether an observer listens. -/
  observed : Bool
  /-- The stages behind the helper's own, up to the end of its run. -/
  remaining : List Stage
  /-- Let somebody run some number of the remaining stages on a value. -/
  runRemaining : Runner → Nat → Json → Timed (Ending Json)
  /-- The partial with a name, as what it renders for data. -/
  partial? : String → Option (Json → Run Json)
  /-- Whether there is a helper with a name. -/
  resolves : String → Bool

/-- A helper. -/
abbrev Helper := HelperContext → List String → Json → Timed Outcome

/-- The outcome of a run that ends with a flow. -/
def Outcome.ofResult : Except Error Flow → Outcome
  | .ok f => .flow f
  | .error e => .failure e

namespace Helper

/-- A helper that answers at once, from its arguments and its input, and lets
the chain go on. -/
def ofFunction (f : List String → Json → Except Error Json) : Helper := fun _ args input =>
  pure (.ofResult ((f args input).map .next))

/-- A helper that answers after some time, from its arguments and its input, and
lets the chain go on. -/
def ofDelayed (delay : List String → Nat) (f : List String → Json → Except Error Json) : Helper :=
  fun _ args input => do
    Timed.wait (delay args)
    return .ofResult ((f args input).map .next)

/-- A helper given by a run in its context. -/
def ofRun (f : HelperContext → List String → Json → Run Flow) : Helper := fun ctx args input =>
  Outcome.ofResult <$> (f ctx args input).timed

/-- A call that goes on with the value of something it runs; a failure or a panic
of that is its own. -/
def proceed (x : Timed (Ending Json)) (f : Json → Timed Outcome) : Timed Outcome := do
  match ← x with
  | .value v => f v
  | .failure e => return .failure e
  | .panic payload => return .panic payload

end Helper

end DocTemplate
