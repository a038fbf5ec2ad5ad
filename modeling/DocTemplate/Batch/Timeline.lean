/-
When tasks start and finish.

With `capacity` places, a task starts on the place that is free first, in the
order of the tasks; `spans` lists their times.
-/
namespace DocTemplate.Timeline

/-- The time a task is in flight. -/
structure Span where
  start : Nat
  finish : Nat
  deriving DecidableEq, Repr

/-- A time put into a list of times in ascending order. -/
def insert (t : Nat) : List Nat → List Nat
  | [] => [t]
  | u :: us => if t ≤ u then t :: u :: us else u :: insert t us

/-- The spans of tasks with given durations, on places that are free from given
times on, which ascend. -/
def spansFrom : List Nat → List Nat → List Span
  | _, [] => []
  | [], _ :: _ => []
  | free :: places, d :: ds => ⟨free, free + d⟩ :: spansFrom (insert (free + d) places) ds

/-- The spans of tasks with given durations on some number of places. -/
def spans (capacity : Nat) (durations : List Nat) : List Span :=
  spansFrom (List.replicate capacity 0) durations

/-- The time when the last task finishes. -/
def finish (ss : List Span) : Nat := ss.foldl (fun t s => max t s.finish) 0

end DocTemplate.Timeline
