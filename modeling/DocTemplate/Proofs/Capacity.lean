/-
How many tasks of a batch are in flight.

A batch starts as many tasks as it has places.  Whenever one of them completes the next
one that is queued takes its place, so a place stays free only when nothing is queued
any more.

* `Join.Advances.starts_le` — what a join starts on its way takes the places of what
  has completed, at every moment;
* `Batch.InStep` — what a batch has started and has in flight when some number of its
  tasks have completed;
* `Batch.in_step_behind` — every batch is in step, whatever the ceiling and the order
  of completion.
-/
import DocTemplate.Proofs.Batch

namespace DocTemplate

namespace Join

variable {α : Type} {f : Frame α} {outcomes : List (Except Error α)} {j k : Join α}
  {order : List Nat} {moves : List Move}

/-- Wherever the moves of a join on its way are cut, no more tasks have started than
have completed. -/
theorem Advances.starts_le (h : Advances f outcomes j order k moves) {made later : List Move}
    (hcut : moves = made ++ later) :
    (Move.starts made).length ≤ (Move.finishes made).length := by
  induction h generalizing made with
  | refl =>
    obtain ⟨rfl, _⟩ := List.nil_eq_append_iff.mp hcut
    exact Nat.le_refl _
  | @step j _ index outcome _ moves _ _ _ ih =>
    rw [movesAt, List.cons_append] at hcut
    cases made with
    | nil => exact Nat.le_refl _
    | cons m made =>
      obtain ⟨rfl, hrest⟩ := List.cons.inj hcut
      rw [Move.starts_cons_finish, Move.finishes_cons_finish, List.length_cons]
      cases hhead : j.queued.head? with
      | none =>
        have := ih (by simpa [hhead] using hrest)
        omega
      | some next =>
        have hnext : .start next :: moves = made ++ later := by simpa [hhead] using hrest
        cases made with
        | nil => exact Nat.zero_le _
        | cons m made =>
          obtain ⟨rfl, hafter⟩ := List.cons.inj hnext
          have := ih hafter
          rw [Move.starts_cons_start, Move.finishes_cons_start, List.length_cons]
          omega

end Join

namespace Batch

open Join

variable {α : Type}

/-- A join that has made some moves when some number of the tasks of a batch have
completed. -/
structure InStep (b : Batch α) (completed : Nat) (j : Join α) (moves : List Move) : Prop where
  /-- Tasks start in the order of their indices, and none of them is passed over. -/
  starts : Move.starts moves = List.range (min b.tasks.length (b.places + completed))
  started : j.started.Perm (List.range (min b.tasks.length (b.places + completed)))
  queued : j.queued = (List.range b.tasks.length).drop (b.places + completed)
  running : j.running.length = min b.places (b.tasks.length - completed)
  under : ∀ ceiling, b.ceiling = some ceiling → j.running.length ≤ max 1 ceiling
  full : j.queued ≠ [] → j.running.length = b.places
  done : j.isOver = true ↔ j.running = []
  /-- What has started and not completed never takes more than the places, not even
  between a completion and the start that answers to it. -/
  always : ∀ made later, moves = made ++ later →
    (Move.starts made).length ≤ b.places + (Move.finishes made).length

theorem places_le (b : Batch α) {ceiling : Nat} (h : b.ceiling = some ceiling) :
    b.places ≤ max 1 ceiling := by
  rw [places, capacity, h, Option.getD_some]
  omega

/-- A batch that advances is in step. -/
theorem InStep.of_advances {b : Batch α} {policy : Policy} {before : List Nat} {j : Join α}
    {moves : List Move}
    (h : Advances (b.frame policy) b.outcomes b.opening before j moves) :
    b.InStep before.length j (b.opening.running.map .start ++ moves) := by
  have hc := h.consistent b.consistent_opening
  have hcompleted : j.settled.length = before.length := by
    have := congrArg List.length h.settled
    simpa [opening, Join.start] using this
  have hlength := hc.length_eq
  rw [hcompleted, length_outcomes] at hlength
  have hqueued : j.queued = (List.range b.tasks.length).drop (b.places + before.length) := by
    rw [hc.queued, hc.total, length_outcomes, hcompleted]
  have hrunning : j.running.length = min b.places (b.tasks.length - before.length) := by omega
  have hempty : j.queued = [] ↔ b.tasks.length ≤ b.places + before.length := by
    rw [hqueued, List.drop_eq_nil_iff, List.length_range]
  constructor
  · rw [starts_of_advances h, Nat.min_comm]
  · have hstarted := hc.started
    rw [hc.total, length_outcomes, hcompleted, List.take_range] at hstarted
    rwa [Nat.min_comm]
  · exact hqueued
  · exact hrunning
  · intro ceiling hceiling
    have := b.places_le hceiling
    omega
  · intro hne
    rw [ne_eq, hempty] at hne
    omega
  · have hpos := b.places_pos
    simp only [isOver, Bool.and_eq_true, List.isEmpty_iff, hempty]
    constructor
    · intro hover
      exact hover.2
    · intro hnone
      have hzero : j.running.length = 0 := by rw [hnone, List.length_nil]
      exact ⟨by omega, hnone⟩
  · intro made later hcut
    have hopening : b.opening.running.length ≤ b.places := by
      rw [opening, Join.start, List.length_take]
      exact Nat.min_le_left ..
    -- A cut lies among the first starts or behind them.
    rcases List.append_eq_append_iff.mp hcut with ⟨rest, hmade, hrest⟩ | ⟨rest, hfirst, _⟩
    · have := h.starts_le hrest
      rw [hmade, Move.starts_append, Move.starts_map_start, Move.finishes_append,
        Move.finishes_map_start, List.nil_append, List.length_append]
      omega
    · have hall : (Move.starts made ++ Move.starts rest).length ≤ b.places := by
        rw [← Move.starts_append, ← hfirst, Move.starts_map_start]
        exact hopening
      rw [List.length_append] at hall
      omega

/-- Behind any number of completions that do not end it, in any order of completion, a
batch has started the first tasks, as many as there are places besides the completions,
and has all places taken as long as something is queued.  The join goes on from there,
and it is over exactly when no task is left to complete. -/
theorem in_step_behind (b : Batch α) (policy : Policy) (before after : List Nat)
    (h : b.Completes (before ++ after))
    (hgoes : ∀ index ∈ before, ∀ outcome, b.outcomes[index]? = some outcome →
      fatal? policy outcome = none) :
    b.places = max 1 (min (b.ceiling.getD b.tasks.length) b.tasks.length)
      ∧ ∃ j moves, b.joinedAlong policy before = (.ok j, moves)
        ∧ b.InStep before.length j moves
        ∧ (∀ other, b.joinedAlong policy (before ++ other)
            = ((j.drive (b.frame policy) b.outcomes other).1,
                moves ++ (j.drive (b.frame policy) b.outcomes other).2))
        ∧ (j.isOver = true ↔ after = []) := by
  refine ⟨rfl, ?_⟩
  obtain ⟨j, moves, hj, _, hafter⟩ := h.advances policy
  have hgoesOn (other : List Nat) : b.joinedAlong policy (before ++ other)
      = ((j.drive (b.frame policy) b.outcomes other).1,
          (b.opening.running.map .start ++ moves)
            ++ (j.drive (b.frame policy) b.outcomes other).2) := by
    have hdrive := hj.drive policy hgoes other
    have hsame : { b.frame policy with policy := policy } = b.frame policy := rfl
    rw [hsame] at hdrive
    rw [joinedAlong_eq, hdrive, List.append_assoc]
  have hstep := InStep.of_advances hj
  refine ⟨j, _, ?_, hstep, hgoesOn, ?_⟩
  · have hhere := hgoesOn []
    rw [List.append_nil] at hhere
    rw [hhere, drive, List.append_nil]
  · rw [hstep.done]
    cases after with
    | nil =>
      have hnone : j.running = [] := hafter
      simp [hnone]
    | cons index after =>
      have hmem : index ∈ j.running := hafter.1
      simp [List.ne_nil_of_mem hmem]

/-- In the batch of three tasks under a ceiling of two, the third one is started when
the second one has failed, and the first one is still in flight. -/
theorem in_step_mixedBatch : mixedBatch.Completes [1, 0, 2]
    ∧ ∃ j moves, mixedBatch.joinedAlong .settle [1] = (.ok j, moves)
      ∧ Move.starts moves = [0, 1, 2] ∧ j.running.length = 2 ∧ j.isOver = false := by
  have hcompletes : mixedBatch.Completes ([1] ++ [0, 2]) := completes_mixedBatch
  obtain ⟨_, j, moves, hjoined, hstep, _, hover⟩ :=
    in_step_behind mixedBatch .settle [1] [0, 2] hcompletes (fun _ _ _ _ => rfl)
  refine ⟨completes_mixedBatch, j, moves, hjoined, hstep.starts, hstep.running, ?_⟩
  rw [Bool.eq_false_iff, ne_eq, hover]
  exact List.cons_ne_nil _ _

end Batch

end DocTemplate
