/-
Joining the tasks of a batch.

Tasks are known by their indices.  A join starts the first `capacity` of them;
whenever one completes, the next one that is queued starts.  `Join` is the
state between two completions, and `drive` runs a join along a list that says
in which order tasks complete:

* under `Policy.settle` every completion is recorded;
* under `Policy.abort` the first failure ends the join, and what is in flight
  then is left to itself.

Nothing here knows of time: the order of completion is an input.  It is
*admissible* when every entry is in flight at its turn and the list ends only
when nothing is in flight.  `follow` makes any list into such an order.
-/
import DocTemplate.Run.Timed

namespace DocTemplate

/-- What the end of a task means to the join of a batch with a label. -/
def Ending.outcome {α : Type} (label : String) : Ending α → Except Error α
  | .value a => .ok a
  | .failure e => .error e
  | .panic payload => .error (.panicked label (Error.payloadText payload))

/-- What a join does about failures. -/
inductive Policy where
  | abort
  | settle
  deriving DecidableEq, Repr

/-- How many tasks of `total` may be in flight under a ceiling: all of them
without one, and always at least one. -/
def capacity (ceiling : Option Nat) (total : Nat) : Nat := max 1 (min (ceiling.getD total) total)

/-- A join between two completions. -/
structure Join (α : Type) where
  /-- The number of tasks. -/
  total : Nat
  /-- The tasks that have not been started, in order. -/
  queued : List Nat
  /-- The tasks in flight. -/
  running : List Nat
  /-- The tasks that have completed, with their outcomes, in order of completion. -/
  settled : List (Nat × Except Error α)

/-- Something that a join does. -/
inductive Move where
  | start (index : Nat)
  | finish (progress : Progress)
  | abort (index detached : Nat)
  deriving DecidableEq, Repr

/-- Whether a task is started. -/
def Move.isStart : Move → Bool
  | .start _ => true
  | _ => false

/-- What the join of a batch needs to know of it. -/
structure Join.Frame (α : Type) where
  label : String
  observed : Bool
  /-- The document that a result is reported as, if it has one. -/
  report : α → Option Json
  policy : Policy

namespace Join

variable {α : Type}

/-- The join of `total` tasks with the first of them started. -/
def start (total capacity : Nat) : Join α :=
  ⟨total, (List.range total).drop capacity, (List.range total).take capacity, []⟩

/-- The tasks that have been started. -/
def started (j : Join α) : List Nat := j.settled.map Prod.fst ++ j.running

/-- Whether nothing is queued and nothing in flight. -/
def isOver (j : Join α) : Bool := j.queued.isEmpty && j.running.isEmpty

/-- A task in flight completes, and the next one that is queued starts. -/
def settle (j : Join α) (index : Nat) (outcome : Except Error α) : Join α :=
  { j with
    queued := j.queued.tail
    running := j.running.erase index ++ j.queued.head?.toList
    settled := j.settled ++ [(index, outcome)] }

/-- The account of the completion of a task. -/
def progress (f : Frame α) (j : Join α) (index : Nat) (outcome : Except Error α) : Progress where
  label := f.label
  index := index
  succeeded := outcome.isOk
  value := if f.observed then outcome.toOption.bind f.report else none
  error := match outcome with
    | .ok _ => none
    | .error e => some e.message
  pending := j.total - (j.settled.length + 1)
  total := j.total
  complete := j.settled.length + 1

/-- The error that ends a join when a task completes under a policy. -/
def fatal? (policy : Policy) (outcome : Except Error α) : Option Error :=
  match policy, outcome with
  | .abort, .error e => some e
  | _, _ => none

/-- A join run along an order of completion, with the moves it makes.  An entry
that is not a task is passed over. -/
def drive (f : Frame α) (outcomes : List (Except Error α)) :
    Join α → List Nat → Except Error (Join α) × List Move
  | j, [] => (.ok j, [])
  | j, index :: order =>
    match outcomes[index]? with
    | none => drive f outcomes j order
    | some outcome =>
      -- A failure that ends the join is not recorded and starts nothing.
      match fatal? f.policy outcome with
      | some e => (.error e, [.abort index (j.running.erase index).length])
      | none =>
        let (result, moves) := drive f outcomes (j.settle index outcome) order
        (result, .finish (j.progress f index outcome) :: (j.queued.head?.map Move.start).toList ++ moves)

/-- A whole join along an order of completion. -/
def run (f : Frame α) (ceiling : Option Nat) (outcomes : List (Except Error α)) (order : List Nat) :
    Except Error (Join α) × List Move :=
  let j : Join α := start outcomes.length (capacity ceiling outcomes.length)
  let (result, moves) := j.drive f outcomes order
  (result, j.running.map Move.start ++ moves)

/-- An order in which tasks complete: as long as a wish names tasks that are in
flight these in the order of the wish, and then the task that is first in
flight. -/
def follow : (queued running wish : List Nat) → List Nat
  | _, [], _ => []
  | queued, index :: running, [] =>
    index :: follow queued.tail (running ++ queued.head?.toList) []
  | queued, first :: running, index :: wish =>
    if index ∈ first :: running then
      index :: follow queued.tail ((first :: running).erase index ++ queued.head?.toList) wish
    else follow queued (first :: running) wish
termination_by queued running wish => (queued.length + running.length, wish.length)
decreasing_by
  · cases queued <;> simp [Prod.lex_def]
  · rename_i h
    have := List.length_erase_of_mem h
    cases queued <;> simp_all [Prod.lex_def]
  · simp [Prod.lex_def]

/-- Every entry of an order is in flight at its turn, and at its end nothing is
in flight. -/
def Admissible (outcomes : List (Except Error α)) : Join α → List Nat → Prop
  | j, [] => j.running = []
  | j, index :: order =>
    index ∈ j.running ∧
      ∃ outcome, outcomes[index]? = some outcome ∧ Admissible outcomes (j.settle index outcome) order

/-- What is queued or in flight after a completion was so before. -/
theorem mem_of_mem_refill {queued running : List Nat} {index i : Nat}
    (h : i ∈ queued.tail ++ (running.erase index ++ queued.head?.toList)) :
    i ∈ queued ++ running := by
  simp only [List.mem_append] at h ⊢
  rcases h with h | h | h
  · exact .inl (List.mem_of_mem_tail h)
  · exact .inr (List.mem_of_mem_erase h)
  · exact .inl (List.mem_of_mem_head? (by simpa using h))

/-- An order that follows a wish is admissible, whatever the wish. -/
theorem admissible_follow (outcomes : List (Except Error α)) (wish : List Nat) (j : Join α)
    (h : ∀ i ∈ j.queued ++ j.running, i < outcomes.length) :
    Admissible outcomes j (follow j.queued j.running wish) := by
  obtain ⟨total, queued, running, settled⟩ := j
  simp only at h ⊢
  fun_induction follow queued running wish generalizing settled with
  | case1 => rfl
  | case2 queued index running ih =>
    refine ⟨by simp, _, List.getElem?_eq_getElem (h index (by simp)), ?_⟩
    have refill {i} := @mem_of_mem_refill queued (index :: running) index i
    simpa [settle] using ih _ fun i hi => h i (refill (by simpa using hi))
  | case3 queued first running index wish hm ih =>
    refine ⟨hm, _, List.getElem?_eq_getElem (h index (List.mem_append_right _ hm)), ?_⟩
    exact ih _ fun i hi => h i (mem_of_mem_refill hi)
  | case4 queued first running index wish hm ih => exact ih _ h

/-! ### Results -/

/-- The outcome of a task that has completed. -/
def outcome? (j : Join α) (index : Nat) : Option (Except Error α) :=
  (j.settled.find? (·.1 == index)).map Prod.snd

/-- The errors by index. -/
def errors (j : Join α) : List (Option Error) :=
  (List.range j.total).map fun i => match j.outcome? i with
    | some (.error e) => some e
    | _ => none

/-- The results by index. -/
def results (j : Join α) : List (Option α) :=
  (List.range j.total).map fun i => (j.outcome? i).bind Except.toOption

/-- All results in order; a task without one is an error. -/
def values (j : Join α) : Except Error (List α) :=
  j.results.zipIdx.mapM fun (result, index) => match result with
    | some a => .ok a
    | none => .error (.internal ("batch slot " ++ toString index ++ " never completed"))

end Join

end DocTemplate
