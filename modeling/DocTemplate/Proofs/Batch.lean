/-
What a batch gives, whatever the order in which its tasks complete.

* `Batch.settleAlong_value` — settling gives every task its own outcome;
* `Batch.exists_first_failure` — unless all tasks succeed, one of those that
  fail completes first;
* `Batch.joinedAlong_cut` — collecting makes the moves of settling up to that
  completion;
* `Batch.collectAlong_eq_ok_iff`, `Batch.mem_outcomes_of_collectAlong` —
  collecting gives all results, or else the failure of some task;
* `Batch.Completes.perm_completions` — whoever carries the batch out sees every task
  complete that the batch starts.

What holds for every order holds for the one in which the tasks do complete
(`Batch.completes_order`).
-/
import DocTemplate.Batch.Basic
import DocTemplate.Proofs.Join
import DocTemplate.Proofs.Play

namespace DocTemplate

theorem Ending.outcome_ofRun {α : Type} (label : String) (r : Run α) :
    (Ending.ofRun r).value.outcome label = r.result := by
  unfold Ending.ofRun Run.result
  rw [Timed.value_bind]
  cases r.timed.value <;> rfl

theorem Ending.toOption_outcome {α : Type} (label : String) (ending : Ending α) :
    (ending.outcome label).toOption = ending.value? := by
  cases ending <;> rfl

theorem Ending.value?_ofRun {α : Type} (r : Run α) :
    (Ending.ofRun r).value.value? = r.result.toOption := by
  rw [← Ending.toOption_outcome "", Ending.outcome_ofRun]

theorem Ending.script_ofRun {α : Type} (r : Run α) : (Ending.ofRun r).script = r.timed.script := by
  unfold Ending.ofRun
  rw [Timed.script_bind]
  cases r.timed.value <;> exact List.append_nil _

/-- The ending of something that does not panic. -/
def Ending.ofResult {α : Type} : Except Error α → Ending α
  | .ok a => .value a
  | .error e => .failure e

theorem Ending.value_ofRun {α : Type} (r : Run α) :
    (Ending.ofRun r).value = Ending.ofResult r.result := by
  unfold Ending.ofRun Run.result
  rw [Timed.value_bind]
  cases r.timed.value <;> rfl

namespace Batch

open Join

variable {α : Type} (b : Batch α) {order : List Nat}

/-- The join of a batch before the first completion. -/
def opening : Join α := .start b.tasks.length b.places

@[simp] theorem length_outcomes : b.outcomes.length = b.tasks.length := by simp [outcomes]

theorem places_pos : 0 < b.places := by
  unfold places capacity
  omega

theorem consistent_opening : Consistent b.places b.outcomes b.opening := by
  rw [opening, ← length_outcomes]
  exact consistent_start _ _

/-- The order in which the tasks complete is one in which they may. -/
theorem completes_order : b.Completes b.order := by
  refine admissible_follow _ _ _ ?_
  intro i hi
  have hmem : i ∈ List.range b.tasks.length := by
    rcases List.mem_append.mp hi with hi | hi
    · exact List.mem_of_mem_drop hi
    · exact List.mem_of_mem_take hi
  simpa using hmem

/-- Without a ceiling the tasks may complete in any order. -/
theorem completes_of_perm (hceiling : b.ceiling = none)
    (horder : order.Perm (List.range b.tasks.length)) : b.Completes order := by
  have hplaces : b.tasks.length ≤ b.places := by
    rw [places, capacity, hceiling, Option.getD_none]
    omega
  refine admissible_of_perm ?_ ?_ ?_
  · rw [Join.start, List.drop_eq_nil_iff, List.length_range]
    exact hplaces
  · rw [Join.start, List.take_of_length_le (by simpa using hplaces)]
    exact horder
  · intro i hi
    simpa using horder.mem_iff.mp hi

theorem joinedAlong_eq (policy : Policy) (order : List Nat) :
    b.joinedAlong policy order
      = ((drive (b.frame policy) b.outcomes b.opening order).1,
          b.opening.running.map .start
            ++ (drive (b.frame policy) b.outcomes b.opening order).2) := by
  simp [joinedAlong, Join.run, opening, places]

variable {b}

/-- As far as its tasks complete in an order, a batch advances, and what it has
started are the first tasks. -/
theorem Completes.advances {before after : List Nat} (h : b.Completes (before ++ after))
    (policy : Policy) :
    ∃ k moves, Advances (b.frame policy) b.outcomes b.opening before k moves
      ∧ Consistent b.places b.outcomes k ∧ Admissible b.outcomes k after := by
  obtain ⟨k, moves, hk, hafter⟩ := Admissible.split (b.frame policy) h
  exact ⟨k, moves, hk, hk.consistent b.consistent_opening, hafter⟩

/-- When no completion is taken for the end of the batch all tasks complete, and then
nothing is in flight. -/
theorem Completes.goes_through (h : b.Completes order) :
    ∃ k moves, Advances (b.frame .settle) b.outcomes b.opening order k moves
      ∧ Consistent b.places b.outcomes k ∧ k.running = []
      ∧ ∀ policy, (∀ index ∈ order, ∀ outcome, b.outcomes[index]? = some outcome →
          fatal? policy outcome = none) →
        b.joinedAlong policy order = (.ok k, b.opening.running.map .start ++ moves) := by
  rw [← List.append_nil order] at h
  obtain ⟨k, moves, hk, hc, hr⟩ := h.advances .settle
  refine ⟨k, moves, hk, hc, hr, fun policy hp => ?_⟩
  have hdrive := hk.drive policy hp []
  rw [List.append_nil] at hdrive
  rw [joinedAlong_eq, show b.frame policy = { b.frame .settle with policy := policy } from rfl,
    hdrive]
  simp [drive]

/-- A batch settles without failing, and then nothing is in flight. -/
theorem Completes.settles (h : b.Completes order) :
    ∃ k moves, Advances (b.frame .settle) b.outcomes b.opening order k moves
      ∧ Consistent b.places b.outcomes k ∧ k.running = []
      ∧ b.joinedAlong .settle order = (.ok k, b.opening.running.map .start ++ moves) := by
  obtain ⟨k, moves, hk, hc, hr, hjoined⟩ := h.goes_through
  exact ⟨k, moves, hk, hc, hr, hjoined .settle fun _ _ _ _ => rfl⟩

/-- Every task completes, and none of them twice. -/
theorem Completes.perm (h : b.Completes order) : order.Perm (List.range b.tasks.length) := by
  obtain ⟨k, moves, hk, hc, hr, _⟩ := h.settles
  have hsettled : k.settled.map Prod.fst = order := by
    rw [hk.settled]
    simp [opening, Join.start]
  rw [← hsettled, ← b.length_outcomes]
  exact hc.settled_perm b.places_pos hr

/-! ### Settling -/

/-- Settling gives every task its own outcome. -/
theorem settleAlong_value (h : b.Completes order) :
    (b.settleAlong order).value
      = ⟨b.outcomes.map (fatal? .abort), b.outcomes.map Except.toOption⟩ := by
  obtain ⟨k, moves, _, hc, hr, hjoined⟩ := h.settles
  simp [settleAlong, runAlong, hjoined, hc.errors_eq b.places_pos hr, hc.results_eq b.places_pos hr]

/-! ### Collecting -/

theorem exists_values_of_forall {outcomes : List (Except Error α)}
    (h : ∀ outcome ∈ outcomes, ∃ a, outcome = .ok a) :
    ∃ values : List α, outcomes = values.map .ok := by
  induction outcomes with
  | nil => exact ⟨[], rfl⟩
  | cons outcome outcomes ih =>
    obtain ⟨a, rfl⟩ := h outcome (by simp)
    obtain ⟨values, rfl⟩ := ih fun o ho => h o (List.mem_cons_of_mem _ ho)
    exact ⟨a :: values, rfl⟩

/-- Unless every task succeeds, one of those that fail completes first. -/
theorem exists_first_failure (h : b.Completes order) :
    (∃ values : List α, b.outcomes = values.map .ok) ∨
      ∃ before index after error, order = before ++ index :: after
        ∧ (∀ i ∈ before, ∃ a, b.outcomes[i]? = some (.ok a))
        ∧ b.outcomes[index]? = some (.error error) := by
  let fails (i : Nat) : Bool := (b.outcomes[i]?.bind (fatal? .abort)).isSome
  have hsucceeds {i : Nat} (hi : i ∈ order) (hf : fails i = false) :
      ∃ a, b.outcomes[i]? = some (.ok a) := by
    have hlt : i < b.outcomes.length := by simpa using h.perm.mem_iff.mp hi
    simp only [fails, List.getElem?_eq_getElem hlt, Option.bind_some] at hf ⊢
    cases hget : b.outcomes[i] with
    | ok a => exact ⟨a, rfl⟩
    | error e => rw [hget] at hf; simp [fatal?] at hf
  cases hfind : order.find? fails with
  | none =>
    left
    refine exists_values_of_forall ?_
    intro outcome hmem
    obtain ⟨i, hi, rfl⟩ := List.mem_iff_getElem.mp hmem
    have hin : i ∈ order := h.perm.mem_iff.mpr (by simpa using hi)
    obtain ⟨a, ha⟩ := hsucceeds hin (by simpa using List.find?_eq_none.mp hfind i hin)
    exact ⟨a, by simpa [List.getElem?_eq_getElem hi] using ha⟩
  | some index =>
    right
    obtain ⟨hfails, before, after, rfl, hbefore⟩ := List.find?_eq_some_iff_append.mp hfind
    obtain ⟨error, herror⟩ := Option.isSome_iff_exists.mp hfails
    obtain ⟨outcome, houtcome, hfatal⟩ := Option.bind_eq_some_iff.mp herror
    refine ⟨before, index, after, error, rfl, ?_, ?_⟩
    · intro i hi
      exact hsucceeds (by simp [hi]) (by simpa using hbefore i hi)
    · cases outcome with
      | ok a => simp [fatal?] at hfatal
      | error e => rw [houtcome, Option.some.inj hfatal]

/-- What a batch has started when some tasks have completed: the first tasks, as
many as may be in flight besides these. -/
theorem starts_of_advances {policy : Policy} {before : List Nat} {k : Join α} {moves : List Move}
    (hk : Advances (b.frame policy) b.outcomes b.opening before k moves) :
    Move.starts (b.opening.running.map .start ++ moves)
      = List.range (min (b.places + before.length) b.tasks.length) := by
  have hc := hk.consistent b.consistent_opening
  have hsettled : k.settled.length = before.length := by
    have := congrArg List.length hk.settled
    simpa [opening, Join.start] using this
  have hqueued : k.queued = (List.range b.tasks.length).drop (b.places + before.length) := by
    rw [hc.queued, hc.total, length_outcomes, hsettled]
  have hall : b.opening.running ++ Move.starts moves ++ k.queued = List.range b.tasks.length := by
    rw [List.append_assoc, hk.starts]
    exact List.take_append_drop _ _
  rw [← List.take_append_drop (b.places + before.length) (List.range b.tasks.length),
    ← hqueued] at hall
  rw [Move.starts_append, Move.starts_map_start, ← List.take_range]
  exact List.append_cancel_right hall

theorem countP_of_advances {policy : Policy} {before : List Nat} {k : Join α} {moves : List Move}
    (hk : Advances (b.frame policy) b.outcomes b.opening before k moves) :
    (b.opening.running.map Move.start ++ moves).countP (! ·.isStart) = before.length := by
  have hstarts : (b.opening.running.map Move.start).countP (! ·.isStart) = 0 := by
    rw [List.countP_map]
    exact List.countP_eq_zero.mpr fun _ _ => by simp [Move.isStart]
  rw [List.countP_append, hstarts, hk.countP_not_isStart, Nat.zero_add]

/-- Up to the first failure collecting makes the moves of settling; then it makes
its last one. -/
theorem joinedAlong_cut {before after : List Nat} {index : Nat} {error : Error}
    (h : b.Completes (before ++ index :: after))
    (hbefore : ∀ i ∈ before, ∃ a, b.outcomes[i]? = some (.ok a))
    (herror : b.outcomes[index]? = some (.error error)) :
    ∃ cut progress rest detached,
      (b.joinedAlong .settle (before ++ index :: after)).2 = cut ++ .finish progress :: rest
        ∧ progress.index = index
        ∧ (∀ other, b.joinedAlong .abort (before ++ index :: other)
            = (.error error, cut ++ [.abort index detached]))
        ∧ (Move.finishes cut).map Progress.index = before
        ∧ Move.starts cut = List.range (min (b.places + before.length) b.tasks.length)
        ∧ cut.countP (! ·.isStart) = before.length := by
  obtain ⟨k, moves, hk, hc, hafter⟩ := h.advances .settle
  have hsucceeds (i : Nat) (hi : i ∈ before) (o : Except Error α) (ho : b.outcomes[i]? = some o) :
      fatal? .abort o = none := by
    obtain ⟨a, ha⟩ := hbefore i hi
    rw [ha] at ho
    rw [← Option.some.inj ho]
    rfl
  let cut := b.opening.running.map .start ++ moves
  have hsettle : ∃ rest, (b.joinedAlong .settle (before ++ index :: after)).2
      = cut ++ .finish (k.progress (b.frame .settle) index (.error error)) :: rest := by
    have hdrive := hk.drive .settle (fun _ _ _ _ => rfl) (index :: after)
    rw [joinedAlong_eq, show b.frame .settle = { b.frame .settle with policy := .settle } from rfl,
      hdrive, drive, herror]
    simp only [fatal?, cut, List.append_assoc, List.cons_append]
    exact ⟨_, rfl⟩
  have habort (other : List Nat) : b.joinedAlong .abort (before ++ index :: other)
      = (.error error, cut ++ [.abort index (k.running.erase index).length]) := by
    have hdrive := hk.drive .abort hsucceeds (index :: other)
    rw [joinedAlong_eq, show b.frame .abort = { b.frame .settle with policy := .abort } from rfl,
      hdrive, drive, herror]
    simp [fatal?, cut]
  obtain ⟨rest, hrest⟩ := hsettle
  exact ⟨cut, _, rest, _, hrest, rfl, habort, by simp [cut, hk.finishes], starts_of_advances hk,
    countP_of_advances hk⟩

theorem result_collectAlong (b : Batch α) (order : List Nat) :
    (b.collectAlong order).result = (b.joinedAlong .abort order).1.bind Join.values := by
  simp [collectAlong, runAlong]

theorem fatal?_of_values {values : List α} (hvalues : b.outcomes = values.map .ok)
    (policy : Policy) (index : Nat) (outcome : Except Error α)
    (ho : b.outcomes[index]? = some outcome) : fatal? policy outcome = none := by
  rw [hvalues, List.getElem?_map] at ho
  obtain ⟨a, _, rfl⟩ := Option.map_eq_some_iff.mp ho
  cases policy <;> rfl

theorem collectAlong_eq_ok {values : List α} (h : b.Completes order)
    (hvalues : b.outcomes = values.map .ok) : (b.collectAlong order).result = .ok values := by
  obtain ⟨k, moves, hk, hc, hr, hjoined⟩ := h.goes_through
  have hresults : k.results = values.map some := by
    rw [hc.results_eq b.places_pos hr, hvalues, List.map_map]
    rfl
  rw [result_collectAlong, hjoined .abort fun index _ => fatal?_of_values hvalues .abort index]
  exact values_eq hresults

theorem collectAlong_eq_error {before after : List Nat} {index : Nat} {error : Error}
    (h : b.Completes (before ++ index :: after))
    (hbefore : ∀ i ∈ before, ∃ a, b.outcomes[i]? = some (.ok a))
    (herror : b.outcomes[index]? = some (.error error)) (other : List Nat) :
    (b.collectAlong (before ++ index :: other)).result = .error error := by
  obtain ⟨_, _, _, _, _, _, habort, _⟩ := joinedAlong_cut h hbefore herror
  rw [result_collectAlong, habort]
  rfl

/-- Collecting succeeds exactly when every task does. -/
theorem collectAlong_eq_ok_iff (h : b.Completes order) (values : List α) :
    (b.collectAlong order).result = .ok values ↔ b.outcomes = values.map .ok := by
  refine ⟨fun hok => ?_, collectAlong_eq_ok h⟩
  rcases exists_first_failure h with ⟨ws, hws⟩ | ⟨before, index, after, error, rfl, hbefore, he⟩
  · rw [collectAlong_eq_ok h hws] at hok
    rw [hws, Except.ok.inj hok]
  · rw [collectAlong_eq_error h hbefore he] at hok
    simp at hok

/-- Collecting fails only with the failure of a task. -/
theorem mem_outcomes_of_collectAlong (h : b.Completes order) {error : Error}
    (he : (b.collectAlong order).result = .error error) : .error error ∈ b.outcomes := by
  rcases exists_first_failure h with ⟨ws, hws⟩ | ⟨before, index, after, e, rfl, hbefore, hown⟩
  · rw [collectAlong_eq_ok h hws] at he
    simp at he
  · rw [collectAlong_eq_error h hbefore hown] at he
    rw [← Except.error.inj he]
    exact List.mem_of_getElem? hown

/-! ### Carrying out the script -/

/-- The tasks that a batch starts are the first ones, and it answers to so many of
them that all of these are started before the last answer. -/
theorem Completes.starts (h : b.Completes order) (policy : Policy) :
    ∃ n, Move.starts (b.joinedAlong policy order).2 = List.range n ∧ n ≤ b.tasks.length
      ∧ (b.joinedAlong policy order).2.countP (! ·.isStart) ≤ n
      ∧ (n - b.places < (b.joinedAlong policy order).2.countP (! ·.isStart) ∨ n ≤ b.places) := by
  have hpos := b.places_pos
  have hwhole (hp : ∀ index ∈ order, ∀ outcome, b.outcomes[index]? = some outcome →
      fatal? policy outcome = none) : ∃ n,
        Move.starts (b.joinedAlong policy order).2 = List.range n ∧ n ≤ b.tasks.length
          ∧ (b.joinedAlong policy order).2.countP (! ·.isStart) ≤ n
          ∧ (n - b.places < (b.joinedAlong policy order).2.countP (! ·.isStart) ∨ n ≤ b.places) := by
    obtain ⟨k, moves, hk, _, _, hjoined⟩ := h.goes_through
    have hlength : order.length = b.tasks.length := by
      rw [h.perm.length_eq, List.length_range]
    rw [hjoined policy hp]
    refine ⟨_, starts_of_advances hk, by omega, ?_, ?_⟩
    · rw [countP_of_advances hk]
      omega
    · rw [countP_of_advances hk]
      omega
  cases policy with
  | settle => exact hwhole fun _ _ _ _ => rfl
  | abort =>
    rcases exists_first_failure h with ⟨values, hvalues⟩ | ⟨before, index, after, error, rfl, hok, he⟩
    · exact hwhole fun index _ => fatal?_of_values hvalues .abort index
    · obtain ⟨cut, progress, rest, detached, _, _, habort, _, hstarts, hanswers⟩ :=
        joinedAlong_cut h hok he
      have hlength : before.length + after.length + 1 = b.tasks.length := by
        have := h.perm.length_eq
        simp only [List.length_append, List.length_cons, List.length_range] at this
        omega
      have hcount : (cut ++ [Move.abort index detached]).countP (! ·.isStart)
          = before.length + 1 := by
        rw [List.countP_append, hanswers]
        rfl
      rw [habort]
      refine ⟨min (b.places + before.length) b.tasks.length, ?_, by omega, ?_, ?_⟩
      · rw [Move.starts_append, hstarts]
        simp
      · rw [hcount]
        omega
      · rw [hcount]
        omega

theorem script_eq (b : Batch α) {moves : List Move} {n : Nat}
    (h : Move.starts moves = List.range n) :
    b.script moves = [.join (((b.tasks.map Timed.script).take n).take b.places)
      (((b.tasks.map Timed.script).take n).drop b.places) (moves.filterMap b.answer?)] := by
  rw [script, Move.countP_isStart, h, List.length_range]

/-- A batch answers to whatever is no start. -/
theorem length_answers (b : Batch α) (moves : List Move) :
    (moves.filterMap b.answer?).length = moves.countP (! ·.isStart) := by
  rw [List.length_filterMap_eq_countP]
  congr 1
  funext m
  cases m <;> rfl

/-- The script of a batch whose tasks have sound scripts is sound, and its tasks are
those that are started. -/
theorem Completes.sound_script (h : b.Completes order) (policy : Policy)
    (hsound : ∀ task ∈ b.tasks, Script.Sound task.script) :
    Script.Sound (b.runAlong policy order).script
      ∧ Script.tasks (b.runAlong policy order).script
          = Move.starts (b.joinedAlong policy order).2 := by
  obtain ⟨n, hstarts, hn, hle, hused⟩ := h.starts policy
  have hscript : (b.runAlong policy order).script = b.script (b.joinedAlong policy order).2 := rfl
  have hanswers := b.length_answers (b.joinedAlong policy order).2
  rw [hscript, script_eq b hstarts]
  generalize (b.joinedAlong policy order).2 = moves at hstarts hle hused hanswers ⊢
  have hlength : ((b.tasks.map Timed.script).take n).length = n := by
    rw [List.length_take, List.length_map]
    omega
  have hall : ∀ script ∈ (b.tasks.map Timed.script).take n, Script.Sound script := by
    intro script hscript
    obtain ⟨task, htask, rfl⟩ := List.mem_map.mp (List.mem_of_mem_take hscript)
    exact hsound task htask
  generalize (b.tasks.map Timed.script).take n = scripts at hlength hall ⊢
  have hpos := b.places_pos
  refine ⟨⟨⟨?_, ?_, ?_⟩, trivial⟩, ?_⟩
  · rw [hanswers, List.length_take, List.length_drop, hlength]
    exact ⟨by omega, by omega, by omega⟩
  · exact allSound_iff.mpr fun script hmem => hall script (List.mem_of_mem_take hmem)
  · exact allSound_iff.mpr fun script hmem => hall script (List.mem_of_mem_drop hmem)
  · rw [Script.tasks, Script.tasksFrom, Script.tasksFrom, List.append_nil, ← List.length_append,
      List.take_append_drop, hlength, hstarts, List.range_eq_range']

/-- Every task that a batch starts is carried out to its end, whatever the batch makes
of it: it completes, and only once. -/
theorem Completes.perm_completions (h : b.Completes order) (policy : Policy)
    (hsound : ∀ task ∈ b.tasks, Script.Sound task.script) (runner : Runner) :
    (Script.completions runner (b.runAlong policy order).script).Perm
      (Move.starts (b.joinedAlong policy order).2) := by
  obtain ⟨hscript, htasks⟩ := h.sound_script policy hsound
  rw [← htasks]
  exact Script.perm_completions runner hscript

/-! ### What an observer hears -/

/-- The accounts that the observer of a batch is given when its join makes some
moves, in order. -/
def events (b : Batch α) (moves : List Move) : List Progress :=
  (moves.filterMap b.answer?).flatten.filterMap fun
    | .progressed progress => some progress
    | _ => none

/-- The observer hears of the completions, and of nothing else. -/
theorem events_eq (b : Batch α) (moves : List Move) :
    b.events moves = if b.observed then Move.finishes moves else [] := by
  unfold events
  induction moves with
  | nil => simp
  | cons m moves ih =>
    cases m with
    | start index => exact ih
    | finish progress =>
      have hanswer : (Move.finish progress :: moves).filterMap b.answer?
          = (.logged (.taskCompleted progress) :: if b.observed then [.progressed progress] else [])
            :: moves.filterMap b.answer? := rfl
      rw [hanswer, List.flatten_cons, List.filterMap_append, ih]
      cases b.observed <;> rfl
    | abort index detached =>
      have hanswer : (Move.abort index detached :: moves).filterMap b.answer?
          = (if detached = 0 then [] else [.logged (.batchAborted b.label index detached)])
            :: moves.filterMap b.answer? := rfl
      rw [hanswer, List.flatten_cons, List.filterMap_append, ih]
      split <;> rfl

end Batch

/-- The slots of a task hold how it ended and nothing else. -/
def Settled.Holds {α : Type} (s : Settled α) (label : String) (index : Nat) : Ending α → Prop
  | .value a => s.errors[index]? = some none ∧ s.results[index]? = some (some a)
  | .failure e => s.errors[index]? = some (some e) ∧ s.results[index]? = some none
  | .panic payload =>
    s.errors[index]? = some (some (.panicked label (payload.getD "unknown panic")))
      ∧ s.results[index]? = some none

namespace Batch

open Join

variable {α : Type} {b : Batch α} {order : List Nat}

/-- Settling a batch along an order of completion loses, repeats and misplaces
nothing. -/
structure SettlesWhole (b : Batch α) (order : List Nat) : Prop where
  /-- The join does not fail, so no failure is made up for the batch. -/
  joined : ∃ j, (b.joinedAlong .settle order).1 = .ok j
  starts : Move.starts (b.joinedAlong .settle order).2 = List.range b.tasks.length
  finishes : ((Move.finishes (b.joinedAlong .settle order).2).map Progress.index).Perm
    (List.range b.tasks.length)
  /-- Whoever carries the batch out sees every task complete once. -/
  completions : (∀ task ∈ b.tasks, Script.Sound task.script) →
    (Script.completions b.runner (b.settleAlong order).script).Perm (List.range b.tasks.length)
  length_errors : (b.settleAlong order).value.errors.length = b.tasks.length
  length_results : (b.settleAlong order).value.results.length = b.tasks.length
  holds : ∀ index task, b.tasks[index]? = some task →
    (b.settleAlong order).value.Holds b.label index task.value

theorem script_settleAlong (b : Batch α) (order : List Nat) :
    (b.settleAlong order).script = (b.runAlong .settle order).script := by
  rw [settleAlong, Timed.script_bind]
  cases (b.runAlong .settle order).value <;> exact List.append_nil _

/-- Settling gives every task its own ending, and neither the ceiling nor the order of
completion plays a part. -/
theorem settle_holds_every_ending (b : Batch α) (order : List Nat) (h : b.Completes order) :
    b.SettlesWhole order ∧ b.settle.value = (b.settleAlong order).value
      ∧ ∀ ceiling other, ({ b with ceiling } : Batch α).Completes other →
          (({ b with ceiling } : Batch α).settleAlong other).value
            = (b.settleAlong order).value := by
  obtain ⟨k, moves, hk, _, _, hjoined⟩ := h.settles
  have hvalue := settleAlong_value h
  have hstarts : Move.starts (b.joinedAlong .settle order).2 = List.range b.tasks.length := by
    rw [hjoined, starts_of_advances hk, h.perm.length_eq, List.length_range]
    congr 1
    omega
  refine ⟨⟨⟨k, by rw [hjoined]⟩, hstarts, ?_, fun hsound => ?_, by simp [hvalue], by simp [hvalue],
    ?_⟩, ?_, ?_⟩
  · rw [hjoined, Move.finishes_append, Move.finishes_map_start, List.nil_append, hk.finishes]
    exact h.perm
  · rw [script_settleAlong, ← hstarts]
    exact h.perm_completions .settle hsound b.runner
  · intro index task htask
    rw [hvalue]
    -- How a task ended decides what both slots hold.
    cases hending : task.value <;>
      simp [Settled.Holds, outcomes, htask, hending, Ending.outcome, fatal?, Except.toOption,
        Error.payloadText]
  · rw [hvalue]
    exact settleAlong_value b.completes_order
  · intro ceiling other hother
    rw [hvalue]
    exact settleAlong_value hother

/-- Three tasks under a ceiling of two: the second one fails while the first one waits,
the third one panics. -/
def mixedBatch : Batch Nat where
  runner := .foreground
  label := "mixed"
  ceiling := some 2
  observed := true
  report := fun n => some (.count n)
  tasks := [⟨.value 7, [.wait 5]⟩, ⟨.failure (.invalid "no"), []⟩, ⟨.panic none, []⟩]

theorem completes_mixedBatch : mixedBatch.Completes [1, 0, 2] :=
  ⟨by decide, _, rfl, by decide, _, rfl, by decide, _, rfl, rfl⟩

theorem settle_holds_mixedBatch : mixedBatch.Completes [1, 0, 2]
    ∧ (mixedBatch.settleAlong [1, 0, 2]).value.Holds "mixed" 2 (.panic none) :=
  ⟨completes_mixedBatch,
    (settle_holds_every_ending mixedBatch [1, 0, 2] completes_mixedBatch).1.holds 2 _ rfl⟩

/-- Collecting a batch is settling it, cut at the failure of a task that completes
behind some others. -/
structure CutAt (b : Batch α) (order before : List Nat) (index : Nat) (error : Error) : Prop where
  /-- Nothing that comes later changes the failure. -/
  result : ∀ other, (b.collectAlong (before ++ index :: other)).result = .error error
  moves : ∃ cut progress rest detached,
    (b.joinedAlong .settle order).2 = cut ++ .finish progress :: rest
      ∧ progress.index = index
      ∧ (b.joinedAlong .abort order).2 = cut ++ [.abort index detached]
  events : b.events (b.joinedAlong .abort order).2
    = (b.events (b.joinedAlong .settle order).2).take before.length
  silent : ∀ progress ∈ b.events (b.joinedAlong .abort order).2, progress.index ≠ index
  starts : Move.starts (b.joinedAlong .abort order).2
    = List.range (min b.tasks.length (b.places + before.length))
  /-- Whoever carries the batch out sees every task that was started complete, and no
  other one. -/
  completions : (∀ task ∈ b.tasks, Script.Sound task.script) →
    (Script.completions b.runner (b.collectAlong order).timed.script).Perm
      (List.range (min b.tasks.length (b.places + before.length)))

theorem script_collectAlong (b : Batch α) (order : List Nat) :
    (b.collectAlong order).timed.script = (b.runAlong .abort order).script := by
  have hrest (r : Except Error (Join α)) :
      Timed.script (ExceptT.bindCont (fun j : Join α => Run.ofExcept j.values) r) = [] := by
    cases r <;> rfl
  show (b.runAlong .abort order).script
    ++ Timed.script (ExceptT.bindCont _ (b.runAlong .abort order).value) = _
  rw [hrest, List.append_nil]

/-- Collecting is settling, cut at the first failure.  Without one it gives the
values of all tasks in order.  With one it gives that failure: the observer has heard
of the `k` completions before it and of no other, the first `max + k` tasks have been
started, none is started any more, and those that were started run to their ends. -/
theorem collect_cuts_settle (b : Batch α) (order : List Nat) (h : b.Completes order) :
    (∃ values : List α, b.outcomes = values.map .ok
      ∧ (b.collectAlong order).result = .ok values
      ∧ (b.settleAlong order).value = ⟨values.map fun _ => none, values.map some⟩)
    ∨ ∃ before index after error, order = before ++ index :: after
      ∧ (∀ i ∈ before, ∃ a, b.outcomes[i]? = some (.ok a))
      ∧ b.outcomes[index]? = some (.error error)
      ∧ b.CutAt order before index error := by
  rcases exists_first_failure h with ⟨values, hvalues⟩ | ⟨before, index, after, error, rfl, hok, he⟩
  · refine .inl ⟨values, hvalues, collectAlong_eq_ok h hvalues, ?_⟩
    rw [settleAlong_value h, hvalues, List.map_map, List.map_map]
    rfl
  · obtain ⟨cut, progress, rest, detached, hsettle, hindex, habort, hfinishes, hstarts, _⟩ :=
      joinedAlong_cut h hok he
    have hfresh : index ∉ before := by
      have hnodup := h.perm.nodup_iff.mpr List.nodup_range
      rw [List.nodup_append] at hnodup
      exact fun hmem => hnodup.2.2 index hmem index (by simp) rfl
    have hstarted : Move.starts (b.joinedAlong .abort (before ++ index :: after)).2
        = List.range (min b.tasks.length (b.places + before.length)) := by
      rw [habort, Move.starts_append, hstarts, Nat.min_comm]
      simp
    refine .inr ⟨before, index, after, error, rfl, hok, he, collectAlong_eq_error h hok he,
      ⟨cut, progress, rest, detached, hsettle, hindex, by rw [habort]⟩, ?_, ?_, hstarted,
      fun hsound => ?_⟩
    · have hlength : (Move.finishes cut).length = before.length := by
        rw [← hfinishes, List.length_map]
      rw [events_eq, events_eq, habort, hsettle]
      cases b.observed with
      | true => simp [← hlength]
      | false => simp
    · intro p hp hpi
      rw [events_eq, habort] at hp
      have hmem : p ∈ Move.finishes cut := by
        cases hobserved : b.observed with
        | true => simpa [hobserved] using hp
        | false => simp [hobserved] at hp
      exact hfresh (by rw [← hfinishes, ← hpi]; exact List.mem_map_of_mem hmem)
    · rw [script_collectAlong, ← hstarted]
      exact h.perm_completions .abort hsound b.runner

theorem collect_cuts_mixedBatch : mixedBatch.Completes [1, 0, 2]
    ∧ (mixedBatch.collectAlong [1, 0, 2]).result = .error (.invalid "no")
    ∧ (Script.completions .foreground (mixedBatch.collectAlong [1, 0, 2]).timed.script).Perm
        [0, 1] := by
  refine ⟨completes_mixedBatch, ?_⟩
  have hsecond : mixedBatch.outcomes[1]? = some (.error (.invalid "no")) := rfl
  have hsound : ∀ task ∈ mixedBatch.tasks, Script.Sound task.script := by
    simp [mixedBatch, Script.Sound, Act.Sound]
  rcases collect_cuts_settle mixedBatch [1, 0, 2] completes_mixedBatch with
    ⟨values, hvalues, _⟩ | ⟨before, index, after, error, horder, hok, he, hcut⟩
  · rw [hvalues, List.getElem?_map] at hsecond
    obtain ⟨_, _, hfailed⟩ := Option.map_eq_some_iff.mp hsecond
    cases hfailed
  · cases before with
    | nil =>
      obtain ⟨rfl, rfl⟩ := List.cons.inj horder
      rw [hsecond] at he
      rw [Except.error.inj (Option.some.inj he)]
      exact ⟨hcut.result [0, 2], hcut.completions hsound⟩
    | cons i before =>
      obtain ⟨rfl, _⟩ := List.cons.inj horder
      obtain ⟨a, ha⟩ := hok 1 (by simp)
      rw [hsecond] at ha
      cases Option.some.inj ha

end Batch

end DocTemplate
