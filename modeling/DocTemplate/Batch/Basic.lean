/-
Batches: independent tasks run together in virtual time.

`Batch.runAlong` starts the tasks under the ceiling and joins them in a given
order of completion.  Its script is that join: the tasks that were started, and
what is made known whenever one of them has completed.  `Batch.order` is the
order in which the tasks do complete.

* `Batch.collect` — all results, or the first failure;
* `Batch.settle` — every outcome, whatever failed;
* `Batch.startedSpans`, `Batch.returnTime` — the times of all that.
-/
import DocTemplate.Batch.Join
import DocTemplate.Batch.Timeline

namespace DocTemplate

/-- Tasks to be run together. -/
structure Batch (α : Type) where
  /-- Who runs the batch and waits for its tasks. -/
  runner : Runner
  label : String
  ceiling : Option Nat
  observed : Bool
  /-- The document that a result is reported as, if it has one. -/
  report : α → Option Json
  tasks : List (Timed (Ending α))

/-- The outcome of every task, by index. -/
structure Settled (α : Type) where
  errors : List (Option Error)
  results : List (Option α)

namespace Settled

variable {α : Type}

/-- Whether no task failed. -/
def isClean (s : Settled α) : Bool := s.errors.all Option.isNone

/-- The number of failures. -/
def errorCount (s : Settled α) : Nat := s.errors.countP Option.isSome

/-- The failure of the least index. -/
def firstError? (s : Settled α) : Option Error := s.errors.findSome? id

end Settled

namespace Batch

variable {α : Type}

/-- The outcomes of the tasks. -/
def outcomes (b : Batch α) : List (Except Error α) :=
  b.tasks.map fun t => t.value.outcome b.label

/-- The number of tasks that may be in flight. -/
def places (b : Batch α) : Nat := capacity b.ceiling b.tasks.length

/-- The order in which the tasks complete if none of them ends the batch. -/
def order (b : Batch α) : List Nat :=
  let scripts := b.tasks.map Timed.script
  let wish := Script.completionOrder b.runner (scripts.take b.places) (scripts.drop b.places)
  let j : Join α := .start b.tasks.length b.places
  Join.follow j.queued j.running wish

/-- What the join needs to know. -/
def frame (b : Batch α) (policy : Policy) : Join.Frame α :=
  ⟨b.label, b.observed, b.report, policy⟩

/-- The tasks may complete in an order: each is in flight at its turn, and at the
end none is left. -/
def Completes (b : Batch α) (order : List Nat) : Prop :=
  Join.Admissible b.outcomes (.start b.tasks.length b.places) order

/-- The join along an order of completion, with its moves. -/
def joinedAlong (b : Batch α) (policy : Policy) (order : List Nat) :
    Except Error (Join α) × List Move :=
  -- What an abort keeps from happening plays no part: the order ends with it.
  Join.run (b.frame policy) b.ceiling b.outcomes order

/-- The join in the order in which the tasks complete, with its moves. -/
def joined (b : Batch α) (policy : Policy) : Except Error (Join α) × List Move :=
  b.joinedAlong policy b.order

/-- What is made known when a task has completed. -/
def answer? (b : Batch α) : Move → Option (List Observation)
  | .start _ => none
  | .finish p => some (.logged (.taskCompleted p) :: if b.observed then [.progressed p] else [])
  -- Where nothing is in flight there is nothing to report.
  | .abort index detached =>
    some (if detached = 0 then [] else [.logged (.batchAborted b.label index detached)])

/-- The script of a batch whose join makes some moves; the tasks that are started
are the first ones. -/
def script (b : Batch α) (moves : List Move) : Script :=
  let scripts := (b.tasks.map Timed.script).take (moves.countP Move.isStart)
  [.join (scripts.take b.places) (scripts.drop b.places) (moves.filterMap b.answer?)]

/-- The tasks run under a policy, completing in an order. -/
def runAlong (b : Batch α) (policy : Policy) (order : List Nat) :
    Timed (Except Error (Join α)) :=
  let (result, moves) := b.joinedAlong policy order
  ⟨result, b.script moves⟩

/-- The results of all tasks by index, or the first failure in an order of
completion. -/
def collectAlong (b : Batch α) (order : List Nat) : Run (List α) := do
  let j ← ExceptT.mk (b.runAlong .abort order)
  Run.ofExcept j.values

/-- The results of all tasks in order, or the first failure. -/
def collect (b : Batch α) : Run (List α) := b.collectAlong b.order

/-- The outcomes of all tasks when they complete in an order. -/
def settleAlong (b : Batch α) (order : List Nat) : Timed (Settled α) := do
  match ← b.runAlong .settle order with
  | .ok j => return ⟨j.errors, j.results⟩
  | .error e =>
    return ⟨(b.tasks.mapIdx fun i _ => if i = 0 then some e else none), b.tasks.map fun _ => none⟩

/-- The outcomes of all tasks. -/
def settle (b : Batch α) : Timed (Settled α) := b.settleAlong b.order

/-- The times when the tasks would start and finish if all of them ran. -/
def spans (b : Batch α) : List Timeline.Span :=
  Timeline.spans b.places (b.tasks.map Timed.duration)

/-- The tasks that are started under a policy, with their times, in order. -/
def startedSpans (b : Batch α) (policy : Policy) : List (Nat × Timeline.Span) :=
  let ss := b.spans
  (b.joined policy).2.filterMap fun
    | .start index => ss[index]?.map fun s => (index, s)
    | _ => none

/-- The time when the last task has finished that is waited for under a policy. -/
def returnTime (b : Batch α) (policy : Policy) : Nat :=
  let ss := b.spans
  Timeline.finish <| (b.joined policy).2.filterMap fun
    | .start _ => none
    | .finish p => ss[p.index]?
    | .abort index _ => ss[index]?

end Batch

end DocTemplate
