/-
What the observer of a batch hears.

The observer is given an account of every completion that the join of the batch records.
Both counters of an account are made from the number of completions before it, and what it
says of the task from the outcome that goes into the slots of this task.

* `Join.Advances.getElem?_finishes` — the account of each completion on the way of a join;
* `Batch.Completes.heard` — the completions that are heard, under either policy: those on
  the way to the end of the join;
* `Batch.Accounted` — what makes a list of accounts consistent in itself;
* `Batch.accounts_agree` — all of it for every batch, policy and order of completion.
-/
import DocTemplate.Proofs.Batch

namespace DocTemplate

/-! ### Accounts on the way of a join -/

namespace Join

variable {α : Type} {f : Frame α} {outcomes : List (Except Error α)} {j k : Join α}
  {order : List Nat} {moves : List Move}

/-- The account of a completion is given by the join behind the completions before it. -/
theorem Advances.getElem?_finishes (h : Advances f outcomes j order k moves) {n : Nat}
    {p : Progress} (hp : (Move.finishes moves)[n]? = some p) :
    ∃ (i : Join α) (index : Nat) (outcome : Except Error α),
      order[n]? = some index ∧ outcomes[index]? = some outcome
        ∧ i.total = j.total ∧ i.settled.length = j.settled.length + n
        ∧ p = i.progress f index outcome := by
  induction h generalizing n with
  | refl => simp at hp
  | @step j _ index outcome order moves _ own _ ih =>
    rw [movesAt, List.cons_append, Move.finishes_cons_finish, Move.finishes_append,
      Move.finishes_map_start, List.nil_append] at hp
    cases n with
    | zero => exact ⟨j, index, outcome, rfl, own, rfl, rfl, (Option.some.inj hp).symm⟩
    | succ n =>
      obtain ⟨i, next, o, hnext, ho, htotal, hsettled, hprogress⟩ := ih hp
      refine ⟨i, next, o, hnext, ho, htotal, ?_, hprogress⟩
      rw [hsettled, Join.settle, List.length_append, List.length_singleton]
      omega

end Join

namespace Batch

open Join

variable {α : Type} {b : Batch α} {order : List Nat}

/-- A batch that advances goes on from where it has got. -/
theorem joinedAlong_of_advances {policy : Policy} {before : List Nat} {k : Join α}
    {moves : List Move} (hk : Advances (b.frame policy) b.outcomes b.opening before k moves)
    (hgoes : ∀ index ∈ before, ∀ outcome, b.outcomes[index]? = some outcome →
      fatal? policy outcome = none) (after : List Nat) :
    b.joinedAlong policy (before ++ after)
      = ((k.drive (b.frame policy) b.outcomes after).1,
          b.opening.running.map .start ++ moves
            ++ (k.drive (b.frame policy) b.outcomes after).2) := by
  have hdrive := hk.drive policy hgoes after
  rw [show { b.frame policy with policy := policy } = b.frame policy from rfl] at hdrive
  rw [joinedAlong_eq, hdrive, List.append_assoc]

/-- Some completions are heard: the first ones, up to one that ends the join. -/
structure Hears (b : Batch α) (policy : Policy) (order heard : List Nat) : Prop where
  first : ∃ after, order = heard ++ after
  goes : ∀ index ∈ heard, ∀ outcome, b.outcomes[index]? = some outcome →
    fatal? policy outcome = none
  advances : ∃ k moves, Advances (b.frame policy) b.outcomes b.opening heard k moves
    ∧ Move.finishes (b.joinedAlong policy order).2 = Move.finishes moves

/-- When nothing behind some completions is recorded, these are the ones that are heard. -/
theorem Hears.of_silent {policy : Policy} {heard after : List Nat}
    (h : b.Completes (heard ++ after))
    (hgoes : ∀ index ∈ heard, ∀ outcome, b.outcomes[index]? = some outcome →
      fatal? policy outcome = none)
    (hsilent : ∀ k : Join α,
      Move.finishes (k.drive (b.frame policy) b.outcomes after).2 = []) :
    b.Hears policy (heard ++ after) heard := by
  obtain ⟨k, moves, hk, _, _⟩ := h.advances policy
  refine ⟨⟨after, rfl⟩, hgoes, k, moves, hk, ?_⟩
  rw [joinedAlong_of_advances hk hgoes, Move.finishes_append, Move.finishes_append,
    Move.finishes_map_start, hsilent, List.nil_append, List.append_nil]

/-- Settling hears of every completion, collecting of those before the first failure. -/
theorem Completes.heard (h : b.Completes order) (policy : Policy) :
    ∃ heard, b.Hears policy order heard ∧ (policy = .settle → heard = order) := by
  have hall (hgoes : ∀ index ∈ order, ∀ outcome, b.outcomes[index]? = some outcome →
      fatal? policy outcome = none) : b.Hears policy order order := by
    rw [← List.append_nil order] at h
    have hhears := Hears.of_silent h hgoes fun _ => rfl
    rwa [List.append_nil] at hhears
  cases policy with
  | settle => exact ⟨order, hall fun _ _ _ _ => rfl, fun _ => rfl⟩
  | abort =>
    rcases exists_first_failure h with ⟨values, hvalues⟩ | ⟨before, index, after, error, rfl, hok, he⟩
    · exact ⟨order, hall fun index _ => fatal?_of_values hvalues .abort index, fun _ => rfl⟩
    · refine ⟨before, Hears.of_silent h ?_ ?_, fun hpolicy => nomatch hpolicy⟩
      · intro i hi outcome houtcome
        obtain ⟨a, ha⟩ := hok i hi
        rw [ha] at houtcome
        rw [← Option.some.inj houtcome]
        rfl
      · intro k
        rw [Join.drive, he]
        rfl

/-! ### Lists of accounts -/

/-- The accounts of a batch are consistent in themselves: each counts the completions, and
no task stands in two of them. -/
structure Accounted (b : Batch α) (accounts : List Progress) : Prop where
  label : ∀ p ∈ accounts, p.label = b.label
  total : ∀ p ∈ accounts, p.total = b.tasks.length
  complete : ∀ k p, accounts[k]? = some p → p.complete = k + 1
  pending : ∀ k p, accounts[k]? = some p → p.pending + (k + 1) = b.tasks.length
  percent : ∀ k p, accounts[k]? = some p → p.percent = 100 * (k + 1) / b.tasks.length
  ascending : accounts.Pairwise fun p q => p.percent ≤ q.percent
  le_hundred : ∀ p ∈ accounts, p.percent ≤ 100
  whole : ∀ k p, accounts[k]? = some p → (p.percent = 100 ↔ k + 1 = b.tasks.length)
  nodup : (accounts.map Progress.index).Nodup

theorem hundredths_eq_iff {complete total : Nat} (h : complete ≤ total) (hpos : 0 < total) :
    100 * complete / total = 100 ↔ complete = total := by
  constructor
  · intro hwhole
    have : 100 * total ≤ 100 * complete :=
      (Nat.le_div_iff_mul_le hpos).mp (Nat.le_of_eq hwhole.symm)
    omega
  · rintro rfl
    exact Nat.mul_div_cancel _ hpos

/-- Accounts that count the completions one after the other are consistent. -/
theorem Accounted.of_counts {accounts : List Progress}
    (hcounts : ∀ k p, accounts[k]? = some p → p.label = b.label ∧ p.total = b.tasks.length
      ∧ p.complete = k + 1 ∧ p.pending + (k + 1) = b.tasks.length)
    (hnodup : (accounts.map Progress.index).Nodup) : b.Accounted accounts := by
  have hpercent : ∀ k p, accounts[k]? = some p →
      p.percent = 100 * (k + 1) / b.tasks.length := by
    intro k p hp
    obtain ⟨_, htotal, hcomplete, _⟩ := hcounts k p hp
    rw [Progress.percent, htotal, hcomplete, Nat.mul_comm]
  have hwithin : ∀ k p, accounts[k]? = some p → k + 1 ≤ b.tasks.length := by
    intro k p hp
    have := (hcounts k p hp).2.2.2
    omega
  constructor
  · intro p hp
    obtain ⟨k, hk⟩ := List.mem_iff_getElem?.mp hp
    exact (hcounts k p hk).1
  · intro p hp
    obtain ⟨k, hk⟩ := List.mem_iff_getElem?.mp hp
    exact (hcounts k p hk).2.1
  · intro k p hp
    exact (hcounts k p hp).2.2.1
  · intro k p hp
    exact (hcounts k p hp).2.2.2
  · exact hpercent
  · rw [List.pairwise_iff_getElem]
    intro i j hi hj hij
    rw [hpercent i _ (List.getElem?_eq_getElem hi), hpercent j _ (List.getElem?_eq_getElem hj)]
    exact Nat.div_le_div_right (by omega)
  · intro p hp
    obtain ⟨k, hk⟩ := List.mem_iff_getElem?.mp hp
    rw [hpercent k p hk]
    exact Nat.div_le_of_le_mul (by have := hwithin k p hk; omega)
  · intro k p hp
    have hle := hwithin k p hp
    rw [hpercent k p hp]
    exact hundredths_eq_iff hle (by omega)
  · exact hnodup

end Batch

/-! ### What is heard -/

/-- An account tells of a task what its slots in the outcome of a batch hold. -/
def Progress.Agrees {α : Type} (p : Progress) (report : α → Option Json) (s : Settled α) : Prop :=
  (∃ a, s.errors[p.index]? = some none ∧ s.results[p.index]? = some (some a)
    ∧ p.succeeded = true ∧ p.value = report a ∧ p.error = none)
  ∨ ∃ e, s.errors[p.index]? = some (some e) ∧ s.results[p.index]? = some none
    ∧ p.succeeded = false ∧ p.value = none ∧ p.error = some e.message

namespace Batch

open Join

variable {α : Type} {b : Batch α} {order : List Nat}

/-- The account of a completion agrees with the outcome of the batch when it was made from
the outcome of the task. -/
theorem agrees_progress (h : b.Completes order) (hobserved : b.observed = true) {policy : Policy}
    (j : Join α) {index : Nat} {outcome : Except Error α}
    (houtcome : b.outcomes[index]? = some outcome) :
    (j.progress (b.frame policy) index outcome).Agrees b.report (b.settleAlong order).value := by
  rw [settleAlong_value h]
  cases outcome with
  | ok a =>
    refine .inl ⟨a, ?_, ?_, rfl, ?_, rfl⟩
    · simp [progress, houtcome, fatal?]
    · simp [progress, houtcome, Except.toOption]
    · simp [progress, frame, hobserved, Except.toOption]
  | error e =>
    refine .inr ⟨e, ?_, ?_, rfl, ?_, rfl⟩
    · simp [progress, houtcome, fatal?]
    · simp [progress, houtcome, Except.toOption]
    · simp [progress, frame, hobserved, Except.toOption]

/-- The accounts of completions on the way of a batch count these completions. -/
theorem counts_of_advances {policy : Policy} {heard : List Nat} {k : Join α} {moves : List Move}
    (hk : Advances (b.frame policy) b.outcomes b.opening heard k moves)
    (hheard : heard.length ≤ b.tasks.length) (n : Nat) (p : Progress)
    (hp : (Move.finishes moves)[n]? = some p) :
    p.label = b.label ∧ p.total = b.tasks.length ∧ p.complete = n + 1
      ∧ p.pending + (n + 1) = b.tasks.length := by
  obtain ⟨i, index, outcome, hn, _, htotal, hsettled, rfl⟩ := hk.getElem?_finishes hp
  have hcomplete : i.settled.length = n := by simpa [opening, Join.start] using hsettled
  have hlength : i.total = b.tasks.length := htotal
  have hn_lt : n < heard.length := (List.getElem?_eq_some_iff.mp hn).1
  refine ⟨rfl, hlength, ?_, ?_⟩
  · show i.settled.length + 1 = n + 1
    rw [hcomplete]
  · show i.total - (i.settled.length + 1) + (n + 1) = b.tasks.length
    omega

/-- What the observer of a batch hears is a consistent account of its completions, whatever
the ceiling, the policy and the order of completion.  Each account agrees with what settling
gives for its task; settling gives an account of every task, and collecting of tasks that
succeed only. -/
theorem accounts_agree (b : Batch α) (policy : Policy) (order : List Nat) (h : b.Completes order)
    (hobserved : b.observed = true) :
    b.Accounted (b.events (b.joinedAlong policy order).2)
      ∧ (∀ p ∈ b.events (b.joinedAlong policy order).2,
          p.Agrees b.report (b.settleAlong order).value)
      ∧ (policy = .settle → ((b.events (b.joinedAlong policy order).2).map Progress.index).Perm
          (List.range b.tasks.length))
      ∧ (policy = .abort → ∀ p ∈ b.events (b.joinedAlong policy order).2, p.succeeded = true) := by
  obtain ⟨heard, ⟨⟨after, horder⟩, hgoes, k, moves, hk, hfinishes⟩, hwhole⟩ := h.heard policy
  have hevents : b.events (b.joinedAlong policy order).2 = Move.finishes moves := by
    rw [events_eq, hobserved, if_pos rfl, hfinishes]
  have hindices : (Move.finishes moves).map Progress.index = heard := hk.finishes
  have hnodup : heard.Nodup := by
    have horder_nodup : order.Nodup := h.perm.nodup_iff.mpr List.nodup_range
    rw [horder] at horder_nodup
    exact (List.nodup_append.mp horder_nodup).1
  -- No more tasks are heard of than there are.
  have hheard : heard.length ≤ b.tasks.length := by
    have hall := h.perm.length_eq
    rw [horder, List.length_append, List.length_range] at hall
    omega
  rw [hevents]
  refine ⟨Accounted.of_counts (counts_of_advances hk hheard) ?_, ?_, ?_, ?_⟩
  · rw [hindices]
    exact hnodup
  · intro p hp
    obtain ⟨n, hn⟩ := List.mem_iff_getElem?.mp hp
    obtain ⟨i, index, outcome, _, houtcome, _, _, rfl⟩ := hk.getElem?_finishes hn
    exact agrees_progress h hobserved i houtcome
  · intro hsettle
    rw [hindices, hwhole hsettle]
    exact h.perm
  · intro habort p hp
    obtain ⟨n, hn⟩ := List.mem_iff_getElem?.mp hp
    obtain ⟨i, index, outcome, hindex, houtcome, _, _, rfl⟩ := hk.getElem?_finishes hn
    have hgoesOn := hgoes index (List.mem_of_getElem? hindex) outcome houtcome
    rw [habort] at hgoesOn
    cases outcome with
    | ok a => rfl
    | error e => simp [fatal?] at hgoesOn

/-- The observer of the batch of three tasks hears of the second one first, which failed. -/
theorem accounts_mixedBatch : mixedBatch.Completes [1, 0, 2] ∧ mixedBatch.observed = true
    ∧ (mixedBatch.events (mixedBatch.joinedAlong .settle [1, 0, 2]).2).map Progress.index = [1, 0, 2]
    ∧ (mixedBatch.events (mixedBatch.joinedAlong .settle [1, 0, 2]).2).map Progress.percent
        = [33, 66, 100]
    ∧ mixedBatch.Accounted (mixedBatch.events (mixedBatch.joinedAlong .settle [1, 0, 2]).2) :=
  ⟨completes_mixedBatch, rfl, by decide, by decide,
    (accounts_agree mixedBatch .settle [1, 0, 2] completes_mixedBatch rfl).1⟩

end Batch

end DocTemplate
