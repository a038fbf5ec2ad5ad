/-
Two accounts of a scheduler.

Two sums over the workers accompany a scheduler from step to step.  The one bounds
the steps that are left, and gets smaller with every step.  The other is the worth of
all that has happened and is still to happen, for any way of valuing what happens,
and stays the same.

* `Scheduler.bound_start`, `Scheduler.bound_call`, `Scheduler.bound_finish` — what the
  steps of a worker leave to do;
* `Scheduler.worth_start`, `Scheduler.worth_call`, `Scheduler.worth_finish` — nothing
  is lost by them.
-/
import DocTemplate.Proofs.Scheduler

namespace DocTemplate

/-! ### What there is to do -/

/-- How many steps are left for a worker because of its standing. -/
def Standing.weight : Standing → Nat
  | .called => 2
  | .resting => 4
  | .busy => 0
  | .ended => 0

/-- How many steps are left for a worker: for its script, and for the tasks it waits
for. -/
def Worker.weight (w : Worker) : Nat :=
  w.standing.weight + w.script.cost + 3 * (w.started - w.completed)

namespace Scheduler

variable {s s' : Scheduler} {id : Nat} {w : Worker}

/-- A bound on the steps that are left. -/
def bound (s : Scheduler) : Nat :=
  s.total Worker.weight + s.called.length + if s.places = 0 then 1 else 0

theorem bound_change (hw : s.workers[id]? = some w) (g : Worker → Worker) :
    (s.change id g).bound + w.weight = s.bound + (g w).weight := by
  have := total_change hw g Worker.weight
  show (s.change id g).total Worker.weight + s.called.length + (if s.places = 0 then 1 else 0) + _
    = s.total Worker.weight + s.called.length + (if s.places = 0 then 1 else 0) + _
  omega

theorem bound_start (hw : s.workers[id]? = some w) (h : w.completed ≤ w.started)
    (script : Script) : (s.start id script).bound = s.bound + script.cost + 6 := by
  have htotal := total_start hw script Worker.weight
  have htask : (task id w script).weight = script.cost + 2 := by
    simp only [Worker.weight, task, Standing.weight]
    omega
  have hhired : Worker.weight { w with started := w.started + 1 } = w.weight + 3 := by
    simp only [Worker.weight]
    omega
  have hbound : (s.start id script).bound = (s.start id script).total Worker.weight
      + (s.called.length + 1) + if s.places = 0 then 1 else 0 := by
    rw [start_eq hw]
    rfl
  rw [hbound]
  unfold bound
  omega

theorem bound_call (hw : s.workers[id]? = some w) (h : w.standing ≠ .called) :
    (s.call id).bound + w.standing.weight ≤ s.bound + 3 := by
  have hchange := bound_change hw fun w => { w with standing := .called }
  have hweight : Worker.weight { w with standing := .called } + w.standing.weight
      = w.weight + 2 := by
    simp only [Worker.weight, Standing.weight]
    omega
  rw [call_eq hw h]
  split
  · omega
  · have hlist : Scheduler.bound { s.change id fun w => { w with standing := .called } with
        called := id :: s.called }
        = (s.change id fun w => { w with standing := .called }).bound + 1 := by
      simp only [bound, total, List.length_cons]
      show _ + (s.called.length + 1) + _ = _ + s.called.length + _ + 1
      omega
    rw [hlist]
    omega

/-- A worker that ends leaves no more to do. -/
theorem bound_finish {rest : List Nat} (h : s.Orderly (some id) rest)
    (hw : s.workers[id]? = some w) (hscript : w.script = []) (hsettled : w.started = w.answered) :
    (s.finish id).bound ≤ s.bound := by
  have hbusy := (h.fits id w hw).current rfl
  have hended := bound_change hw fun w => { w with standing := .ended }
  have hweight : Worker.weight { w with standing := .ended } = w.weight := by
    simp only [Worker.weight, Standing.weight, hbusy]
  have hmarked : ((s.change id fun w => { w with standing := .ended }).report
      (farewell w)).bound = s.bound := by
    show (s.change id fun w => { w with standing := .ended }).bound = s.bound
    omega
  rcases h.finish_cases hw hscript hsettled with
    ⟨hfinish, _⟩ | ⟨e, v, t, he, hv, _, hlt, ht, hstanding, _⟩
  · exact Nat.le_of_eq (by rw [hfinish, hmarked])
  · have hget : ((s.change id fun w => { w with standing := .ended }).report
        (farewell w)).workers[e]? = some v := by
      show (s.change id fun w => { w with standing := .ended }).workers[e]? = some v
      rw [workers_change, if_neg (Ne.symm he), hv]
    have hcounted := bound_change hget fun v => { v with completed := v.completed + 1 }
    rw [← ht] at hcounted
    have hless : Worker.weight { v with completed := v.completed + 1 } + 3 = v.weight := by
      simp only [Worker.weight]
      omega
    have hgett : t.workers[e]? = some { v with completed := v.completed + 1 } := by
      rw [ht]
      exact workers_change_self hget _
    rcases hstanding with ⟨hs, hfinish⟩ | ⟨_, hfinish⟩
    · have hcall := bound_call hgett (by simp [hs])
      rw [hfinish]
      omega
    · rw [hfinish]
      omega

end Scheduler

/-! ### What there is to happen -/

section Worth

variable (μ : Report → Nat)

/-- What making a list of observations known is worth. -/
def notesWorth (os : List Observation) : Nat := (os.map fun o => μ (.noted o)).sum

@[simp] theorem notesWorth_nil : notesWorth μ [] = 0 := rfl

@[simp] theorem notesWorth_cons (o : Observation) (os : List Observation) :
    notesWorth μ (o :: os) = μ (.noted o) + notesWorth μ os := rfl

@[simp] theorem notesWorth_append (os ps : List Observation) :
    notesWorth μ (os ++ ps) = notesWorth μ os + notesWorth μ ps := by
  unfold notesWorth
  rw [List.map_append, List.sum_append_nat]

/-- What the completions of some tasks of the first worker are worth. -/
def tasksWorth (indices : List Nat) : Nat :=
  (indices.map fun i => μ (.completed Scheduler.first i)).sum

/-- What a script is worth for a worker that has started some tasks of its join; only
the first worker counts the completions of its tasks. -/
def Script.worth (isFirst : Bool) (started : Nat) (script : Script) : Nat :=
  notesWorth μ (Script.notes script)
    + if isFirst then tasksWorth μ (script.tasksFrom started) else 0

namespace Script

variable {μ} {isFirst : Bool} {n : Nat} {script : Script}

@[simp] theorem worth_nil : worth μ isFirst n [] = 0 := by
  simp [worth, Script.notes, tasksFrom, tasksWorth]

theorem worth_note (o : Observation) :
    worth μ isFirst n (.note o :: script) = μ (.noted o) + worth μ isFirst n script := by
  simp only [worth, Script.notes, Act.notes, tasksFrom, notesWorth_append, notesWorth_cons,
    notesWorth_nil]
  omega

theorem worth_giveWay : worth μ isFirst n (.giveWay :: script) = worth μ isFirst n script := by
  simp [worth, Script.notes, Act.notes, tasksFrom]

theorem worth_wait (ms : Nat) :
    worth μ isFirst n (.wait ms :: script) = worth μ isFirst n script := by
  simp [worth, Script.notes, Act.notes, tasksFrom]

theorem worth_join_start (task : Script) (started queued : List Script)
    (answers : List (List Observation)) :
    worth μ isFirst n (.join (task :: started) queued answers :: script)
      = worth μ false 0 task + (if isFirst then μ (.completed Scheduler.first n) else 0)
        + worth μ isFirst (n + 1) (.join started queued answers :: script) := by
  have htasks : tasksFrom n (.join (task :: started) queued answers :: script)
      = n :: tasksFrom (n + 1) (.join started queued answers :: script) := by
    rw [tasksFrom, tasksFrom, List.length_cons, Nat.add_right_comm, List.range'_succ,
      List.cons_append]
  simp only [worth, htasks, Script.notes, Act.notes, allNotes, notesWorth_append, tasksWorth,
    List.map_cons, List.sum_cons]
  cases isFirst <;> simp <;> omega

theorem worth_join_queued (task : Script) (queued : List Script)
    (answers : List (List Observation)) :
    worth μ isFirst n (.join [] (task :: queued) answers :: script)
      = worth μ isFirst n (.join [task] queued answers :: script) := by
  simp only [worth, Script.notes, Act.notes, allNotes, tasksFrom, List.length_cons, List.length_nil,
    notesWorth_append, notesWorth_nil]
  rw [show 0 + (queued.length + 1) = 0 + 1 + queued.length by omega]
  omega

theorem worth_join_answer (answer : List Observation) (started queued : List Script)
    (answers : List (List Observation)) :
    worth μ isFirst n (.join started queued (answer :: answers) :: script)
      = notesWorth μ answer + worth μ isFirst n (.join started queued answers :: script) := by
  simp only [worth, Script.notes, Act.notes, tasksFrom, List.flatten_cons, notesWorth_append]
  omega

theorem worth_join_nil :
    worth μ isFirst n (.join [] [] [] :: script) = worth μ isFirst 0 script := by
  simp [worth, Script.notes, Act.notes, allNotes, tasksFrom]

end Script

/-- What a worker is worth: its script, and its end. -/
def Worker.worth (w : Worker) : Nat :=
  w.script.worth μ w.employer?.isNone w.started
    + if w.standing = .ended then 0 else μ (Scheduler.farewell w)

namespace Scheduler

variable {s : Scheduler} {id : Nat} {w : Worker}

/-- What a scheduler is worth: what has happened and what is to happen. -/
def worth (s : Scheduler) : Nat := (s.reports.map fun r => μ r.2).sum + s.total (Worker.worth μ)

theorem worth_report (s : Scheduler) (r : Report) : (s.report r).worth μ = s.worth μ + μ r := by
  show (μ r + (s.reports.map fun r => μ r.2).sum) + s.total (Worker.worth μ) = _
  unfold worth
  omega

theorem worth_change (hw : s.workers[id]? = some w) (g : Worker → Worker) :
    (s.change id g).worth μ + w.worth μ = s.worth μ + (g w).worth μ := by
  have := total_change hw g (Worker.worth μ)
  show (s.reports.map fun r => μ r.2).sum + (s.change id g).total (Worker.worth μ) + _ = _
  unfold worth
  omega

/-- Who does not count the completion of a task counts it for nothing. -/
def OnlyFirst : Prop := ∀ employer index, employer ≠ first → μ (.completed employer index) = 0

variable {μ}

theorem worth_start (hμ : OnlyFirst μ) (hfirst : w.employer? = none ↔ id = first)
    (hw : s.workers[id]? = some w) (hscript : w.script = []) (script : Script) :
    (s.start id script).worth μ = s.worth μ + script.worth μ false 0
      + if w.employer?.isNone then μ (.completed first w.started) else 0 := by
  have htotal := total_start hw script (Worker.worth μ)
  have hhired : Worker.worth μ { w with started := w.started + 1 } = Worker.worth μ w := by
    simp only [Worker.worth, hscript, Script.worth_nil]
    rfl
  have htask : Worker.worth μ (task id w script)
      = script.worth μ false 0 + if w.employer?.isNone then μ (.completed first w.started) else 0 := by
    show script.worth μ false 0 + μ (.completed id w.started) = _
    cases hemployer : w.employer? with
    | none =>
      rw [hfirst.mp hemployer]
      rfl
    | some task =>
      have hid : id ≠ first := fun h => by simp [hfirst.mpr h] at hemployer
      rw [hμ id w.started hid]
      rfl
  have hreports : (s.start id script).worth μ
      = (s.reports.map fun r => μ r.2).sum + (s.start id script).total (Worker.worth μ) := by
    rw [start_eq hw]
    rfl
  rw [hreports]
  unfold worth
  omega

theorem worth_call (hw : s.workers[id]? = some w) (h : w.standing ≠ .called)
    (hended : w.standing ≠ .ended) : (s.call id).worth μ = s.worth μ := by
  have hchange := worth_change μ hw fun w => { w with standing := .called }
  have hsame : Worker.worth μ { w with standing := .called } = w.worth μ := by
    simp only [Worker.worth, hended, reduceCtorEq, if_false]
    rfl
  rw [call_eq hw h]
  split
  · omega
  · show (s.change id fun w => { w with standing := .called }).worth μ = s.worth μ
    omega

/-- A worker that ends has become worth nothing, and its end is known. -/
theorem worth_finish {rest : List Nat} (h : s.Orderly (some id) rest)
    (hw : s.workers[id]? = some w) (hscript : w.script = []) (hsettled : w.started = w.answered) :
    (s.finish id).worth μ = s.worth μ := by
  have hbusy := (h.fits id w hw).current rfl
  have hended := worth_change μ hw fun w => { w with standing := .ended }
  have hworth : w.worth μ
      = Worker.worth μ { w with standing := .ended } + μ (farewell w) := by
    simp only [Worker.worth, hbusy, reduceCtorEq, if_false, if_true]
    omega
  have hmarked : ((s.change id fun w => { w with standing := .ended }).report
      (farewell w)).worth μ = s.worth μ := by
    rw [worth_report]
    omega
  rcases h.finish_cases hw hscript hsettled with
    ⟨hfinish, _⟩ | ⟨e, v, t, he, hv, _, hlt, ht, hstanding, _⟩
  · rw [hfinish, hmarked]
  · have hget : ((s.change id fun w => { w with standing := .ended }).report
        (farewell w)).workers[e]? = some v := by
      show (s.change id fun w => { w with standing := .ended }).workers[e]? = some v
      rw [workers_change, if_neg (Ne.symm he), hv]
    have hcounted := worth_change μ hget fun v => { v with completed := v.completed + 1 }
    have hsame : Worker.worth μ { v with completed := v.completed + 1 } = v.worth μ := rfl
    have hgett : t.workers[e]? = some { v with completed := v.completed + 1 } := by
      rw [ht]
      exact workers_change_self hget _
    rw [← ht] at hcounted
    rcases hstanding with ⟨hs, hfinish⟩ | ⟨_, hfinish⟩
    · rw [hfinish, worth_call hgett (by simp [hs]) (by simp [hs])]
      omega
    · rw [hfinish]
      omega

end Scheduler

end Worth

end DocTemplate
