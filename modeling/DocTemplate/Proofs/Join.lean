/-
A join between its completions.

`Join.Advances` takes a join from one state to another along completions of
tasks in flight, none of which ends it; both policies handle such a completion
alike, so the relation knows of none.

* `Join.Consistent` — the invariant: after `k` completions exactly the first
  `capacity + k` tasks have been started, the others are queued in order, and
  every completed task has its own outcome;
* `Join.Advances.consistent` — the invariant along any order of completion;
* `Join.Advances.drive` — a join that advances goes on from where it arrives;
* `Join.Consistent.outcome?_eq` — with nothing in flight any more, all tasks
  have completed.
-/
import DocTemplate.Batch.Join

namespace DocTemplate

namespace Move

/-- The tasks that some moves start, in order. -/
def starts (moves : List Move) : List Nat :=
  moves.filterMap fun
    | .start index => some index
    | _ => none

/-- The accounts of the completions among some moves, in order. -/
def finishes (moves : List Move) : List Progress :=
  moves.filterMap fun
    | .finish progress => some progress
    | _ => none

@[simp] theorem starts_nil : starts [] = [] := rfl

@[simp] theorem starts_append (ms ns : List Move) : starts (ms ++ ns) = starts ms ++ starts ns :=
  List.filterMap_append

@[simp] theorem starts_map_start (indices : List Nat) : starts (indices.map .start) = indices := by
  rw [starts, List.filterMap_map]
  exact List.filterMap_some

@[simp] theorem starts_cons_start (index : Nat) (ms : List Move) :
    starts (.start index :: ms) = index :: starts ms := rfl

@[simp] theorem starts_cons_finish (p : Progress) (ms : List Move) :
    starts (.finish p :: ms) = starts ms := rfl

@[simp] theorem starts_cons_abort (index detached : Nat) (ms : List Move) :
    starts (.abort index detached :: ms) = starts ms := rfl

@[simp] theorem finishes_nil : finishes [] = [] := rfl

@[simp] theorem finishes_append (ms ns : List Move) :
    finishes (ms ++ ns) = finishes ms ++ finishes ns := List.filterMap_append

@[simp] theorem finishes_map_start (indices : List Nat) : finishes (indices.map .start) = [] := by
  rw [finishes, List.filterMap_map]
  exact List.filterMap_eq_nil_iff.mpr fun _ _ => rfl

@[simp] theorem finishes_cons_start (index : Nat) (ms : List Move) :
    finishes (.start index :: ms) = finishes ms := rfl

@[simp] theorem finishes_cons_finish (p : Progress) (ms : List Move) :
    finishes (.finish p :: ms) = p :: finishes ms := rfl

@[simp] theorem finishes_cons_abort (index detached : Nat) (ms : List Move) :
    finishes (.abort index detached :: ms) = finishes ms := rfl

/-- The moves that start a task are as many as the tasks that are started. -/
theorem countP_isStart (moves : List Move) : moves.countP isStart = (starts moves).length := by
  unfold starts
  rw [List.length_filterMap_eq_countP]
  congr 1
  funext m
  cases m <;> rfl

end Move

namespace Join

variable {α : Type}

/-- The moves of a join when a task completes that does not end it. -/
def movesAt (f : Frame α) (j : Join α) (index : Nat) (outcome : Except Error α) : List Move :=
  .finish (j.progress f index outcome) :: (j.queued.head?.toList).map .start

/-- A join gets from one state to another, making moves, while tasks in flight
complete in an order and none of them ends it. -/
inductive Advances (f : Frame α) (outcomes : List (Except Error α)) :
    Join α → List Nat → Join α → List Move → Prop where
  | refl (j : Join α) : Advances f outcomes j [] j []
  | step {j k : Join α} {index : Nat} {outcome : Except Error α} {order : List Nat}
      {moves : List Move} (flying : index ∈ j.running) (own : outcomes[index]? = some outcome)
      (rest : Advances f outcomes (j.settle index outcome) order k moves) :
      Advances f outcomes j (index :: order) k (j.movesAt f index outcome ++ moves)

/-- What holds of every join between its completions. -/
structure Consistent (capacity : Nat) (outcomes : List (Except Error α)) (j : Join α) : Prop where
  total : j.total = outcomes.length
  queued : j.queued = (List.range j.total).drop (capacity + j.settled.length)
  started : j.started.Perm ((List.range j.total).take (capacity + j.settled.length))
  own : ∀ index outcome, (index, outcome) ∈ j.settled → outcomes[index]? = some outcome

variable {f : Frame α} {outcomes : List (Except Error α)} {capacity : Nat} {j k : Join α}
  {order : List Nat} {moves : List Move}

theorem consistent_start (capacity : Nat) (outcomes : List (Except Error α)) :
    Consistent capacity outcomes (start outcomes.length capacity) where
  total := rfl
  queued := rfl
  started := by simp [Join.started, start]
  own := by simp [start]

/-! ### One completion -/

/-- The task that starts is the next one behind those that have been started. -/
theorem Consistent.settle (h : Consistent capacity outcomes j) {index : Nat}
    {outcome : Except Error α} (hi : index ∈ j.running) (ho : outcomes[index]? = some outcome) :
    Consistent capacity outcomes (j.settle index outcome) where
  total := h.total
  queued := by
    simp only [Join.settle, h.queued, List.tail_drop, List.length_append, List.length_singleton]
    rfl
  started := by
    have hhead : j.queued.head? = (List.range j.total)[capacity + j.settled.length]? := by
      rw [h.queued, List.head?_drop]
    have hmoved : (j.settled.map Prod.fst ++ index :: j.running.erase index).Perm j.started :=
      (List.perm_cons_erase hi).symm.append_left _
    have hlength : (j.settle index outcome).settled.length = j.settled.length + 1 := by
      simp [Join.settle]
    have htotal : (j.settle index outcome).total = j.total := rfl
    rw [hlength, htotal, ← Nat.add_assoc, List.take_add_one, ← hhead]
    refine List.Perm.trans ?_ ((hmoved.trans h.started).append_right _)
    simp [Join.started, Join.settle]
  own := by
    intro i o hio
    rcases List.mem_append.mp hio with hio | hio
    · exact h.own i o hio
    · obtain ⟨rfl, rfl⟩ := by simpa using hio
      exact ho

/-- Every task that was started has completed or is in flight. -/
theorem Consistent.length_eq (h : Consistent capacity outcomes j) :
    j.settled.length + j.running.length
      = min (capacity + j.settled.length) outcomes.length := by
  have := h.started.length_eq
  simpa [Join.started, h.total] using this

/-! ### Along an order -/

theorem Advances.consistent (h : Advances f outcomes j order k moves)
    (hj : Consistent capacity outcomes j) : Consistent capacity outcomes k := by
  induction h with
  | refl => exact hj
  | step flying own _ ih => exact ih (hj.settle flying own)

theorem Advances.settled (h : Advances f outcomes j order k moves) :
    k.settled.map Prod.fst = j.settled.map Prod.fst ++ order := by
  induction h with
  | refl => simp
  | step _ _ _ ih => rw [ih]; simp [Join.settle]

/-- What a join starts on its way is taken off the front of the queue. -/
theorem Advances.starts (h : Advances f outcomes j order k moves) :
    Move.starts moves ++ k.queued = j.queued := by
  induction h with
  | refl => rfl
  | @step j _ _ _ _ _ _ _ _ ih =>
    simp only [movesAt, List.cons_append, Move.starts_cons_finish, Move.starts_append,
      Move.starts_map_start, List.append_assoc, ih, Join.settle]
    cases j.queued <;> rfl

/-- Every completion is accounted for, in the order of completion. -/
theorem Advances.finishes (h : Advances f outcomes j order k moves) :
    (Move.finishes moves).map Progress.index = order := by
  induction h with
  | refl => rfl
  | step _ _ _ ih => simp [movesAt, ih, progress]

/-- On its way a join answers to every completion once. -/
theorem Advances.countP_not_isStart (h : Advances f outcomes j order k moves) :
    moves.countP (! ·.isStart) = order.length := by
  induction h with
  | refl => rfl
  | @step j _ _ _ _ _ _ _ _ ih =>
    rw [movesAt, List.cons_append, List.countP_cons, List.countP_append, ih]
    cases j.queued.head? <;> simp [Move.isStart]

/-- An order that tasks may complete in can be cut anywhere. -/
theorem Admissible.split {before after : List Nat} (f : Frame α)
    (h : Admissible outcomes j (before ++ after)) :
    ∃ k moves, Advances f outcomes j before k moves ∧ Admissible outcomes k after := by
  induction before generalizing j with
  | nil => exact ⟨j, [], .refl j, h⟩
  | cons index before ih =>
    obtain ⟨flying, outcome, own, h⟩ := h
    obtain ⟨k, moves, hk, hafter⟩ := ih h
    exact ⟨k, _, .step flying own hk, hafter⟩

/-- With nothing queued, what is in flight may complete in any order. -/
theorem admissible_of_perm (hqueued : j.queued = []) (horder : order.Perm j.running)
    (howned : ∀ i ∈ order, i < outcomes.length) : Admissible outcomes j order := by
  induction order generalizing j with
  | nil => exact List.nil_perm.mp horder
  | cons index order ih =>
    obtain ⟨hflying, hrest⟩ := List.cons_perm_iff_perm_erase.mp horder
    refine ⟨hflying, _, List.getElem?_eq_getElem (howned index (by simp)), ih ?_ ?_ ?_⟩
    · rw [settle, hqueued]
      rfl
    · rw [settle, hqueued]
      simpa using hrest
    · exact fun i hi => howned i (List.mem_cons_of_mem _ hi)

/-- A join goes on from where it has got, under a policy that takes none of the
completions on the way for its end. -/
theorem Advances.drive (h : Advances f outcomes j order k moves) (policy : Policy)
    (hp : ∀ index ∈ order, ∀ outcome, outcomes[index]? = some outcome →
      fatal? policy outcome = none) (after : List Nat) :
    Join.drive { f with policy } outcomes j (order ++ after)
      = ((Join.drive { f with policy } outcomes k after).1,
          moves ++ (Join.drive { f with policy } outcomes k after).2) := by
  induction h with
  | refl => rfl
  | @step j _ index outcome _ _ _ own _ ih =>
    have hgoesOn : fatal? policy outcome = none := hp index (by simp) outcome own
    have ih := ih fun i hi => hp i (List.mem_cons_of_mem _ hi)
    simp only [List.cons_append, Join.drive, own, hgoesOn, ih, movesAt, List.append_assoc]
    -- The account of a completion does not depend on the policy.
    cases j.queued.head? <;> rfl

/-! ### At the end -/

/-- When nothing is in flight, every task has completed. -/
theorem Consistent.settled_perm (h : Consistent capacity outcomes j) (hc : 0 < capacity)
    (hr : j.running = []) : (j.settled.map Prod.fst).Perm (List.range outcomes.length) := by
  have hlength := h.length_eq
  rw [hr, List.length_nil] at hlength
  have hall : outcomes.length ≤ capacity + j.settled.length := by omega
  have hstarted := h.started
  rw [h.total, List.take_of_length_le (by simpa using hall)] at hstarted
  simpa [Join.started, hr] using hstarted

/-- When nothing is in flight, every task has its own outcome. -/
theorem Consistent.outcome?_eq (h : Consistent capacity outcomes j) (hc : 0 < capacity)
    (hr : j.running = []) (index : Nat) : j.outcome? index = outcomes[index]? := by
  unfold Join.outcome?
  cases hfind : j.settled.find? (·.1 == index) with
  | some entry =>
    obtain ⟨i, outcome⟩ := entry
    have hi : i = index := by simpa using List.find?_some hfind
    rw [← hi, h.own i outcome (List.mem_of_find?_eq_some hfind)]
    rfl
  | none =>
    have habsent : index ∉ j.settled.map Prod.fst := by
      rintro hmem
      obtain ⟨⟨i, outcome⟩, hin, rfl⟩ := List.mem_map.mp hmem
      simpa using List.find?_eq_none.mp hfind _ hin
    rw [(h.settled_perm hc hr).mem_iff, List.mem_range] at habsent
    rw [List.getElem?_eq_none (by omega)]
    rfl

theorem Consistent.results_eq (h : Consistent capacity outcomes j) (hc : 0 < capacity)
    (hr : j.running = []) : j.results = outcomes.map Except.toOption := by
  apply List.ext_getElem
  · simp [Join.results, h.total]
  · intro i hi _
    have hi : i < outcomes.length := by simpa [Join.results, h.total] using hi
    simp [Join.results, h.outcome?_eq hc hr, List.getElem?_eq_getElem hi]

theorem Consistent.errors_eq (h : Consistent capacity outcomes j) (hc : 0 < capacity)
    (hr : j.running = []) : j.errors = outcomes.map (fatal? .abort) := by
  apply List.ext_getElem
  · simp [Join.errors, h.total]
  · intro i hi _
    have hi : i < outcomes.length := by simpa [Join.errors, h.total] using hi
    simp only [Join.errors, List.getElem_map, List.getElem_range, h.outcome?_eq hc hr,
      List.getElem?_eq_getElem hi]
    cases outcomes[i] <;> rfl

theorem values_eq {values : List α} (h : j.results = values.map some) : j.values = .ok values := by
  rw [Join.values, h]
  -- The numbers of the slots only matter where one is empty.
  generalize 0 = n
  clear h
  induction values generalizing n with
  | nil => rfl
  | cons a values ih =>
    rw [List.map_cons, List.zipIdx_cons, List.mapM_cons, ih]
    rfl

end Join

end DocTemplate
