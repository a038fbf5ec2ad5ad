/-
Running the stages of a binding.

`Binding.runFrom` goes along the stages with a cursor, up to a stop that may
lie before the last stage.  A literal or a data path gives the next value; a
helper is found by its name at that moment, called, and its flow moves the
cursor: to the next stage, past some more, or out of the chain.  The cursor
only grows, so a run ends after at most `stop - cursor` stages; the part of a
chain that a helper runs itself lies strictly behind that helper.  Where the
place of a helper and the number of stages that it wants to run add up to more
than a word, the sum panics.

The first error ends a chain.  An error of a helper leaves its stage located,
with the helper and the path; a panic becomes such an error as well.

Main facts:

* `runFrom_eq` — one stage of a run, in terms of `Stage.perform`;
* `runFrom_of_le`, `runFrom_past_end` — a run with no stage ahead of it;
* `runRemaining_of_lt`, `runRemaining_of_le` — what a helper runs itself.
-/
import DocTemplate.Helper.Basic

namespace DocTemplate

open DocTemplate.Text

/-- What a chain finds around itself. -/
structure Environment where
  /-- Who runs the chain. -/
  runner : Runner
  helper? : String → Option Helper
  options : Json
  config : Config
  observed : Bool
  partial? : String → Option (Json → Run Json)

/-- The error of a helper's outcome on a path, or its flow. -/
def Outcome.located (name : String) (path : Path) : Outcome → Except Error Flow
  | .flow f => .ok f
  | .failure e => .error (e.locate name path)
  | .panic payload => .error (.panicked path.display (Error.payloadText payload))

/-- Perform one stage on a value, in the context of the stage. -/
def Stage.perform (env : Environment) (ctx : HelperContext) (input : Json) : Stage → Run Flow
  | .literal value => return .next value
  | .data path => return .next (path.resolve input)
  | .call name args =>
    match env.helper? name with
    | none => throw (.unknownHelper name ctx.path.display)
    | some helper => do
      -- The call is known even when it fails.
      Run.note (.invoked ctx.path name args input)
      let outcome ← ExceptT.lift (helper ctx args input)
      Run.ofExcept (outcome.located name ctx.path)

namespace Binding

/-- The stages from one index on and before another. -/
def slice (b : Binding) (first last : Nat) : List Stage := (b.stages.take last).drop first

/-- The index behind a cursor, as far as a stop allows. -/
def behind (stop cursor : Nat) : Nat := min (cursor + 1) stop

/-- The stop of a run of some number of stages from a start on, before another
stop. -/
def clippedStop (stop start count : Nat) : Nat := min (start + count) stop

/-- The panic of a sum that is no word. -/
def overflow : Timed (Ending Json) := pure (.panic (some "attempt to add with overflow"))

/-- What the helper at a cursor sees, given how to run stages between an index
and a stop. -/
def contextAt (env : Environment) (b : Binding) (stop cursor : Nat)
    (runRemaining : Runner → Nat → Json → Timed (Ending Json)) : HelperContext where
  runner := env.runner
  path := b.path
  options := env.options
  config := env.config
  observed := env.observed
  remaining := b.slice (behind stop cursor) stop
  runRemaining := runRemaining
  partial? := env.partial?
  resolves := fun name => (env.helper? name).isSome

/-- Give way before the stage at the cursor, if there is one and the
configuration says so. -/
def giveWay (env : Environment) (b : Binding) (stop cursor : Nat) : Run Unit :=
  if cursor < stop ∧ env.config.yieldBetweenStages then do
    Run.note (.gaveWay b.path cursor)
    ExceptT.lift Timed.giveWay
  else pure ()

/-- Run the stages from a cursor on and before a stop. -/
def runFrom (env : Environment) (b : Binding) (stop cursor : Nat) (input : Json) : Run Json :=
  if _h : cursor < stop then
    match b.stages[cursor]? with
    -- A stop may lie behind the last stage.
    | none => pure input
    | some stage => do
      let context := b.contextAt env stop cursor fun runner count value =>
        -- The sum comes before the clipping.
        if behind stop cursor + count < Word.bound then
          Ending.ofRun <| b.runFrom { env with runner }
            (clippedStop stop (behind stop cursor) count) (behind stop cursor) value
        else overflow
      match ← stage.perform env context input with
      | .next value =>
        b.giveWay env stop (cursor + 1)
        b.runFrom env stop (cursor + 1) value
      | .skip value stages =>
        b.giveWay env stop (cursor + 1 + stages)
        b.runFrom env stop (cursor + 1 + stages) value
      | .exit value =>
        Run.log (.chainExited b.path cursor)
        return value
  else pure input
termination_by stop - cursor
decreasing_by
  · simp only [clippedStop, behind]
    omega
  · omega
  · omega

/-- Let somebody run some number of the stages behind a cursor, before a stop. -/
def runRemaining (env : Environment) (b : Binding) (stop cursor : Nat) (runner : Runner)
    (count : Nat) (input : Json) : Timed (Ending Json) :=
  if behind stop cursor + count < Word.bound then
    Ending.ofRun <| b.runFrom { env with runner } (clippedStop stop (behind stop cursor) count)
      (behind stop cursor) input
  else overflow

/-- How a run goes on behind a stage. -/
def continueFrom (env : Environment) (b : Binding) (stop cursor : Nat) : Flow → Run Json
  | .next value => do
    b.giveWay env stop (cursor + 1)
    b.runFrom env stop (cursor + 1) value
  | .skip value stages => do
    b.giveWay env stop (cursor + 1 + stages)
    b.runFrom env stop (cursor + 1 + stages) value
  | .exit value => do
    Run.log (.chainExited b.path cursor)
    return value

theorem clippedStop_le (stop start count : Nat) : clippedStop stop start count ≤ stop :=
  Nat.min_le_right _ _

/-- Where the sum is a word, the stages behind the cursor are run. -/
theorem runRemaining_of_lt {stop cursor count : Nat} (h : behind stop cursor + count < Word.bound)
    (env : Environment) (b : Binding) (runner : Runner) (input : Json) :
    b.runRemaining env stop cursor runner count input
      = Ending.ofRun (b.runFrom { env with runner } (clippedStop stop (behind stop cursor) count)
          (behind stop cursor) input) := if_pos h

theorem runRemaining_of_le {stop cursor count : Nat} (h : Word.bound ≤ behind stop cursor + count)
    (env : Environment) (b : Binding) (runner : Runner) (input : Json) :
    b.runRemaining env stop cursor runner count input = overflow := if_neg (Nat.not_lt.mpr h)

theorem runFrom_of_le {env : Environment} {b : Binding} {stop cursor : Nat}
    (h : stop ≤ cursor) (input : Json) : b.runFrom env stop cursor input = pure input := by
  rw [runFrom, dif_neg (Nat.not_lt.mpr h)]

theorem runFrom_past_end {env : Environment} {b : Binding} {stop cursor : Nat}
    (h : b.stages.length ≤ cursor) (input : Json) :
    b.runFrom env stop cursor input = pure input := by
  rw [runFrom]
  split
  · rw [List.getElem?_eq_none h]
  · rfl

/-- A stage is performed in the context of its place, and its flow says how the
run goes on. -/
theorem runFrom_eq {env : Environment} {b : Binding} {stop cursor : Nat} {stage : Stage}
    (h : cursor < stop) (hs : b.stages[cursor]? = some stage) (input : Json) :
    b.runFrom env stop cursor input =
      stage.perform env (b.contextAt env stop cursor (b.runRemaining env stop cursor)) input
        >>= b.continueFrom env stop cursor := by
  rw [runFrom, dif_pos h, hs]
  rfl

/-- Run the stages of a range, as far as there are any. -/
def runRange (env : Environment) (b : Binding) (first last : Nat) (input : Json) : Run Json :=
  b.runFrom env (min last b.stages.length) first input

/-- Run a binding on the data of a render: the first stage reads the data, the
others are run on what it gives. -/
def evaluate (env : Environment) (b : Binding) (data : Json) : Run Json :=
  match b.stages.head? with
  | none => pure data
  | some (.call name _) =>
    throw (.internal ("binding at " ++ b.path.display ++ " starts with helper '" ++ name ++ "'"))
  | some (.literal value) => continueWith value
  | some (.data path) => continueWith (path.resolve data)
where
  /-- Run the stages behind the first. -/
  continueWith (value : Json) : Run Json := do
    b.giveWay env b.stages.length 1
    b.runRange env 1 b.stages.length value

end Binding

end DocTemplate
