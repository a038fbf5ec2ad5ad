/-
When tasks start, and what more places change.

On some number of places, a task starts as soon as fewer of the tasks before it are not at
their end than there are places.  This says when a task starts by the tasks before it alone,
and a task that starts earlier is at its end earlier; so with more places no task is later.
Which task completes when, and on whose place the next one starts, plays no part.

* `Timeline.Timely` — the law that the times of tasks follow;
* `Timeline.timely_spans` — the times that a timeline gives follow it;
* `Timeline.Timely.noLater` — more places make nothing later, by induction on the tasks;
* `Timeline.finish_spans_one`, `Timeline.finish_spans_of_le` — one place, and a place for
  every task.
-/
import DocTemplate.Proofs.Batch
import Mathlib.Algebra.GroupWithZero.Nat
import Mathlib.Data.List.Forall2
import Mathlib.Data.List.Sort
import Mathlib.Order.Bounds.Basic
import Mathlib.Order.Nat

namespace DocTemplate.Timeline

/-! ### The law -/

/-- The number of spans that are not at their end at a time. -/
def unfinished (ss : List Span) (t : Nat) : Nat := ss.countP (t < ·.finish)

/-- Tasks with given durations start as soon as some number of places allows it, and take their
time. -/
structure Timely (places : Nat) (durations : List Nat) (ss : List Span) : Prop where
  length_eq : ss.length = durations.length
  finish : ∀ (i : Nat) (s : Span) (d : Nat), ss[i]? = some s → durations[i]? = some d →
    s.finish = s.start + d
  start : ∀ (i : Nat) (s : Span), ss[i]? = some s →
    IsLeast {t | unfinished (ss.take i) t < places} s.start

variable {places m : Nat} {durations : List Nat} {past ss ts : List Span}

theorem unfinished_append (ss ts : List Span) (t : Nat) :
    unfinished (ss ++ ts) t = unfinished ss t + unfinished ts t := List.countP_append

theorem unfinished_singleton (start finish t : Nat) :
    unfinished [⟨start, finish⟩] t = if t < finish then 1 else 0 := by
  by_cases h : t < finish
  · simp [unfinished, h]
  · simp [unfinished, h]

theorem Timely.nil (places : Nat) : Timely places [] [] := ⟨rfl, by simp, by simp⟩

/-- An entry is one of those before the last, or the last one. -/
theorem getElem?_concat_cases {s last : Span} {i : Nat} (h : (ss ++ [last])[i]? = some s) :
    (i < ss.length ∧ ss[i]? = some s) ∨ (i = ss.length ∧ s = last) := by
  rcases Nat.lt_trichotomy i ss.length with hi | rfl | hi
  · rw [List.getElem?_append_left hi] at h
    exact .inl ⟨hi, h⟩
  · rw [List.getElem?_concat_length] at h
    exact .inr ⟨rfl, (Option.some.inj h).symm⟩
  · rw [List.getElem?_eq_none (by simp; omega)] at h
    exact absurd h (by simp)

/-- One task more. -/
theorem Timely.concat (h : Timely places durations ss)
    (hm : IsLeast {t | unfinished ss t < places} m) (d : Nat) :
    Timely places (durations ++ [d]) (ss ++ [⟨m, m + d⟩]) := by
  refine ⟨by simp [h.length_eq], ?_, ?_⟩
  · intro i s e hs he
    rcases getElem?_concat_cases hs with ⟨hi, hs⟩ | ⟨rfl, rfl⟩
    · rw [List.getElem?_append_left (h.length_eq ▸ hi)] at he
      exact h.finish i s e hs he
    · rw [h.length_eq, List.getElem?_concat_length] at he
      rw [← Option.some.inj he]
  · intro i s hs
    rcases getElem?_concat_cases hs with ⟨hi, hs⟩ | ⟨rfl, rfl⟩
    · rw [List.take_append_of_le_length hi.le]
      exact h.start i s hs
    · rw [List.take_left]
      exact hm

/-! ### The times that a timeline gives -/

theorem insert_eq_orderedInsert (t : Nat) (free : List Nat) :
    insert t free = free.orderedInsert (· ≤ ·) t := by
  induction free with
  | nil => rfl
  | cons u free ih => rw [insert, List.orderedInsert_cons, ih]

/-- Places are free from the ends of some tasks on: as far as it matters for the next task, the
places that are not free yet are as many as the tasks that are not at their end. -/
structure Leaves (past : List Span) (free : List Nat) : Prop where
  ascending : free.Pairwise (· ≤ ·)
  le_unfinished : ∀ t, free.countP (t < ·) ≤ unfinished past t
  /-- From the time on when some place is free, the tasks that had a place before another task
  are at their end. -/
  unfinished_eq : ∀ m ∈ free.head?, ∀ t, m ≤ t → unfinished past t = free.countP (t < ·)

theorem leaves_nil (places : Nat) : Leaves [] (List.replicate places 0) := by
  refine ⟨List.pairwise_replicate.mpr (.inr (Nat.le_refl 0)), ?_, ?_⟩
  · simp [List.countP_replicate]
  · simp [List.countP_replicate, unfinished]

/-- The next task starts when the first of the places is free. -/
theorem Leaves.isLeast {free : List Nat} (h : Leaves past (m :: free)) :
    IsLeast {t | unfinished past t < (m :: free).length} m := by
  constructor
  · have hcount : (m :: free).countP (m < ·) ≤ free.length := by
      rw [List.countP_cons_of_neg (by simp)]
      exact List.countP_le_length
    rw [Set.mem_ofPred_eq, h.unfinished_eq m rfl m (Nat.le_refl m), List.length_cons]
    omega
  · intro t ht
    by_contra hlt
    have hall : (m :: free).countP (t < ·) = (m :: free).length := by
      refine List.countP_eq_length.mpr ?_
      intro u hu
      have hmu : m ≤ u := by
        rcases List.mem_cons.mp hu with rfl | hu
        · exact Nat.le_refl _
        · exact List.rel_of_pairwise_cons h.ascending hu
      exact decide_eq_true (by omega)
    -- Before then no place is free, so too many tasks are not at their end.
    have hle := h.le_unfinished t
    rw [Set.mem_ofPred_eq] at ht
    omega

theorem Leaves.concat {free : List Nat} (h : Leaves past (m :: free)) (d : Nat) :
    Leaves (past ++ [⟨m, m + d⟩]) (insert (m + d) free) := by
  have hperm : (insert (m + d) free).Perm ((m + d) :: free) := by
    rw [insert_eq_orderedInsert]
    exact List.perm_orderedInsert _ _ _
  have hcount (t : Nat) : (insert (m + d) free).countP (t < ·)
      = free.countP (t < ·) + if t < m + d then 1 else 0 := by
    rw [hperm.countP_eq, List.countP_cons]
    simp
  have hfree (t : Nat) : (m :: free).countP (t < ·)
      = free.countP (t < ·) + if t < m then 1 else 0 := by
    rw [List.countP_cons]
    simp
  refine ⟨?_, ?_, ?_⟩
  · rw [insert_eq_orderedInsert]
    exact List.Pairwise.orderedInsert _ _ h.ascending.of_cons
  · intro t
    have hle := h.le_unfinished t
    rw [hfree] at hle
    rw [hcount, unfinished_append, unfinished_singleton]
    omega
  · intro first hfirst t ht
    have hmem : first ∈ (m + d) :: free := hperm.mem_iff.mp (List.mem_of_mem_head? hfirst)
    -- The place of the new task was the first to be free.
    have hm : m ≤ first := by
      rcases List.mem_cons.mp hmem with rfl | hmem
      · exact Nat.le_add_right m d
      · exact List.rel_of_pairwise_cons h.ascending hmem
    have heq := h.unfinished_eq m rfl t (by omega)
    rw [hfree, if_neg (by omega)] at heq
    rw [hcount, unfinished_append, unfinished_singleton]
    omega

theorem length_insert (t : Nat) (free : List Nat) : (insert t free).length = free.length + 1 := by
  rw [insert_eq_orderedInsert, List.orderedInsert_length]

theorem timely_spansFrom {free : List Nat} (hfree : free ≠ []) (h : Leaves past free)
    (hpast : Timely free.length durations past) (later : List Nat) :
    Timely free.length (durations ++ later) (past ++ spansFrom free later) := by
  induction later generalizing free past durations with
  | nil => simpa [spansFrom] using hpast
  | cons d later ih =>
    obtain ⟨m, free, rfl⟩ := List.exists_cons_of_ne_nil hfree
    have hlength : (insert (m + d) free).length = (m :: free).length := length_insert _ _
    have hne : insert (m + d) free ≠ [] := by
      rw [← List.length_pos_iff, hlength]
      exact Nat.succ_pos _
    have hnext := hpast.concat h.isLeast d
    rw [← hlength] at hnext
    have hrest := ih hne (h.concat d) hnext
    rw [hlength, List.append_assoc, List.append_assoc] at hrest
    exact hrest

theorem timely_spans (hplaces : 0 < places) (durations : List Nat) :
    Timely places durations (spans places durations) := by
  have hfree : List.replicate places 0 ≠ [] := by
    rw [← List.length_pos_iff, List.length_replicate]
    exact hplaces
  have htimely := timely_spansFrom hfree (leaves_nil places) (Timely.nil _) durations
  simpa [spans] using htimely

/-! ### More places -/

/-- One span neither starts nor ends after another. -/
def Span.NoLater (t s : Span) : Prop := t.start ≤ s.start ∧ t.finish ≤ s.finish

theorem unfinished_le (h : List.Forall₂ Span.NoLater ts ss) (t : Nat) :
    unfinished ts t ≤ unfinished ss t := by
  induction h with
  | nil => exact Nat.le_refl _
  | @cons b a ts ss hba _ ih =>
    obtain ⟨bstart, bfinish⟩ := b
    obtain ⟨astart, afinish⟩ := a
    have hfinish : bfinish ≤ afinish := hba.2
    show unfinished ([⟨bstart, bfinish⟩] ++ ts) t ≤ unfinished ([⟨astart, afinish⟩] ++ ss) t
    rw [unfinished_append, unfinished_append, unfinished_singleton, unfinished_singleton]
    split <;> split <;> omega

/-- With more places every task starts and ends no later. -/
theorem Timely.noLater {more : Nat} (h : Timely places durations ss)
    (hmore : Timely more durations ts) (hle : places ≤ more) :
    List.Forall₂ Span.NoLater ts ss := by
  have hlength : ts.length = ss.length := by rw [h.length_eq, hmore.length_eq]
  -- When a task starts hangs on the tasks before it.
  have htake (i : Nat) : List.Forall₂ Span.NoLater (ts.take i) (ss.take i) := by
    induction i with
    | zero => simp
    | succ i ih =>
      by_cases hi : i < ss.length
      · have hts := List.getElem?_eq_getElem (hlength ▸ hi)
        have hss := List.getElem?_eq_getElem hi
        have hd := List.getElem?_eq_getElem (h.length_eq ▸ hi)
        have hstart : ts[i].start ≤ ss[i].start := by
          refine (hmore.start i _ hts).2 ?_
          have hplace := (h.start i _ hss).1
          rw [Set.mem_ofPred_eq] at hplace ⊢
          have hcount := unfinished_le ih ss[i].start
          omega
        have hfinish : ts[i].finish ≤ ss[i].finish := by
          rw [h.finish i _ _ hss hd, hmore.finish i _ _ hts hd]
          omega
        rw [List.take_add_one, List.take_add_one, hts, hss]
        exact List.rel_append ih (.cons ⟨hstart, hfinish⟩ .nil)
      · rw [List.take_of_length_le (by omega), List.take_of_length_le (by omega)]
        rw [List.take_of_length_le (by omega), List.take_of_length_le (by omega)] at ih
        exact ih
  have hall := htake ss.length
  rwa [List.take_of_length_le (Nat.le_of_eq hlength), List.take_length] at hall

/-- The law leaves no choice. -/
theorem Timely.unique (h : Timely places durations ss) (h' : Timely places durations ts) :
    ss = ts := by
  have hle := h.noLater h' (Nat.le_refl _)
  have hge := h'.noLater h (Nat.le_refl _)
  clear h h'
  induction hle with
  | nil => rfl
  | @cons t s ts ss hts _ ih =>
    obtain ⟨hst, hge⟩ := List.forall₂_cons.mp hge
    have hspan : s = t := by
      cases s; cases t
      simp only [Span.NoLater] at hts hst
      simp only [Span.mk.injEq]
      omega
    rw [hspan, ih hge]

/-! ### The last end -/

theorem foldl_max_le_iff (ss : List Span) (a t : Nat) :
    ss.foldl (fun t s => max t s.finish) a ≤ t ↔ a ≤ t ∧ ∀ s ∈ ss, s.finish ≤ t := by
  induction ss generalizing a with
  | nil => simp
  | cons s ss ih =>
    rw [List.foldl_cons, ih, Nat.max_le, List.forall_mem_cons, and_assoc]

theorem finish_le_iff {t : Nat} : finish ss ≤ t ↔ ∀ s ∈ ss, s.finish ≤ t := by
  rw [finish, foldl_max_le_iff]
  simp

theorem le_finish {s : Span} (h : s ∈ ss) : s.finish ≤ finish ss :=
  finish_le_iff.mp (Nat.le_refl _) s h

theorem finish_le_finish (h : List.Forall₂ Span.NoLater ts ss) : finish ts ≤ finish ss := by
  have hlast : ∀ s ∈ ss, s.finish ≤ finish ss := fun s hs => le_finish hs
  refine finish_le_iff.mpr ?_
  generalize finish ss = last at hlast ⊢
  induction h with
  | nil => simp
  | cons hts _ ih =>
    rw [List.forall_mem_cons] at hlast ⊢
    exact ⟨Nat.le_trans hts.2 hlast.1, ih hlast.2⟩

theorem finish_perm (h : ss.Perm ts) : finish ss = finish ts := by
  refine Nat.le_antisymm ?_ ?_
  · exact finish_le_iff.mpr fun s hs => le_finish (h.mem_iff.mp hs)
  · exact finish_le_iff.mpr fun s hs => le_finish (h.mem_iff.mpr hs)

/-- On one place the tasks run one after the other. -/
theorem finish_spans_one (durations : List Nat) : finish (spans 1 durations) = durations.sum := by
  have hfrom (a : Nat) : (spansFrom [a] durations).foldl (fun t s => max t s.finish) a
      = a + durations.sum := by
    induction durations generalizing a with
    | nil => simp [spansFrom]
    | cons d durations ih =>
      rw [spansFrom, List.foldl_cons, insert, List.sum_cons, ← Nat.add_assoc, ← ih (a + d)]
      congr 1
      simp
  simpa [finish, spans] using hfrom 0

/-- With a place for every task all of them start at once. -/
theorem finish_spans_of_le (h : durations.length ≤ places) :
    finish (spans places durations) = durations.foldl max 0 := by
  rcases Nat.eq_zero_or_pos places with rfl | hplaces
  · obtain rfl : durations = [] := List.length_eq_zero_iff.mp (Nat.le_zero.mp h)
    rfl
  have htimely := timely_spans hplaces durations
  have hspans : spans places durations = durations.map fun d => ⟨0, d⟩ := by
    refine List.ext_getElem? ?_
    intro i
    rw [List.getElem?_map]
    by_cases hi : i < durations.length
    · have hi' : i < (spans places durations).length := by rwa [htimely.length_eq]
      have hs := List.getElem?_eq_getElem hi'
      have hd := List.getElem?_eq_getElem hi
      have hstart : (spans places durations)[i].start ≤ 0 := by
        refine (htimely.start i _ hs).2 ?_
        have hcount : unfinished ((spans places durations).take i) 0
            ≤ ((spans places durations).take i).length := List.countP_le_length
        rw [List.length_take] at hcount
        rw [Set.mem_ofPred_eq]
        omega
      have hfinish := htimely.finish i _ _ hs hd
      rw [hs, hd, Option.map_some, Option.some.injEq]
      generalize (spans places durations)[i] = s at hstart hfinish
      cases s
      simp only [Span.mk.injEq] at hstart hfinish ⊢
      omega
    · rw [List.getElem?_eq_none (by rw [htimely.length_eq]; omega),
        List.getElem?_eq_none (by omega)]
      rfl
  rw [hspans, finish, List.foldl_map]

end DocTemplate.Timeline
