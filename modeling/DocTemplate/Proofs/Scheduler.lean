/-
How the scheduler keeps its workers.

`Scheduler.Orderly` is the invariant of a scheduler between two steps, or while one
worker, the current one, is at work.  Every worker stands where its standing says, in
the queue or among those that rest; the tasks of its join that it counts as not
completed are those that are not at their end; and a worker that waits has such a
task.

* `Orderly.update` — what has to be checked when one worker changes;
* `Orderly.start`, `Orderly.call`, `Orderly.finish_cases` — the steps that concern
  two workers.
-/
import DocTemplate.Proofs.Script
import Mathlib.Algebra.GroupWithZero.Nat

namespace DocTemplate

/-- One for a task of a join of a worker that is not at its end. -/
def Worker.inFlight (id join : Nat) (w : Worker) : Nat :=
  if w.employer? = some (id, join) ∧ w.standing ≠ .ended then 1 else 0

namespace Scheduler

variable {s : Scheduler} {id : Nat} {w : Worker}

/-! ### Sums over the workers -/

/-- The sum of something over all workers. -/
def total (s : Scheduler) (f : Worker → Nat) : Nat := (s.workers.toList.map f).sum

theorem sum_map_modify {ws : List Worker} (h : ws[id]? = some w) (g : Worker → Worker)
    (f : Worker → Nat) : ((ws.modify id g).map f).sum + f w = (ws.map f).sum + f (g w) := by
  induction ws generalizing id with
  | nil => simp at h
  | cons v ws ih =>
    cases id with
    | zero =>
      obtain rfl : v = w := by simpa using h
      simp only [List.modify_zero_cons, List.map_cons, List.sum_cons]
      omega
    | succ id =>
      have := ih (by simpa using h)
      simp only [List.modify_succ_cons, List.map_cons, List.sum_cons]
      omega

/-- A worker that changes changes its part of a sum. -/
theorem total_change (hw : s.workers[id]? = some w) (g : Worker → Worker) (f : Worker → Nat) :
    (s.change id g).total f + f w = s.total f + f (g w) := by
  unfold total change
  rw [Array.toList_modify]
  exact sum_map_modify (by simpa using hw) g f

theorem total_change_of_eq (hw : s.workers[id]? = some w) {g : Worker → Worker}
    {f : Worker → Nat} (h : f (g w) = f w) : (s.change id g).total f = s.total f := by
  have := total_change hw g f
  omega

/-- The number of tasks of a join of a worker that are not at their end. -/
def inFlight (s : Scheduler) (id join : Nat) : Nat := s.total (Worker.inFlight id join)

theorem workers_change (s : Scheduler) (id i : Nat) (g : Worker → Worker) :
    (s.change id g).workers[i]? = if id = i then s.workers[i]?.map g else s.workers[i]? := by
  unfold change
  rw [Array.getElem?_modify]

theorem workers_change_self (hw : s.workers[id]? = some w) (g : Worker → Worker) :
    (s.change id g).workers[id]? = some (g w) := by
  rw [workers_change, if_pos rfl, hw]
  rfl

theorem lt_size (hw : s.workers[id]? = some w) : id < s.workers.size :=
  (Array.getElem?_eq_some_iff.mp hw).1

/-- Those in the queue. -/
def queue (s : Scheduler) : List Nat := s.ready ++ s.called

/-- Those who gave way or wait for a time. -/
def resting (s : Scheduler) : List Nat := s.gaveWay ++ s.waiting.map Prod.snd

end Scheduler

/-! ### The invariant -/

/-- A worker stands right in a scheduler: it is queued, rests and has tasks in flight
as often as it should.  A worker that is not the current one has a sound script and,
when it is busy, waits for a task. -/
structure Worker.Fits (w : Worker) (isForeground : Bool) (isCurrent : Prop)
    (queued resting inFlight : Nat) : Prop where
  queued : queued = if w.standing = .called ∧ isForeground = false then 1 else 0
  resting : resting = if w.standing = .resting then 1 else 0
  answered : w.answered ≤ w.completed
  started : w.started = w.completed + inFlight
  sound : ¬ isCurrent → w.script.SoundWith (w.started - w.answered)
  waits : ¬ isCurrent → w.standing = .busy → w.completed < w.started
  settled : w.standing = .resting ∨ w.standing = .ended → w.started = w.answered
  done : w.standing = .ended → w.script = []
  current : isCurrent → w.standing = .busy

/-- The employer of a task is an older worker that has come to the join of the task; the
first worker alone has none. -/
structure Scheduler.Descends (s : Scheduler) : Prop where
  employer : ∀ (id : Nat) (w : Worker), s.workers[id]? = some w →
    ∀ e join, w.employer? = some (e, join) → e < id ∧ ∀ v : Worker, s.workers[e]? = some v →
      join ≤ v.joins
  root : ∀ (id : Nat) (w : Worker), s.workers[id]? = some w →
    (w.employer? = none ↔ id = Scheduler.first)

/-- Every worker stands right when some workers rest. -/
structure Scheduler.Orderly (s : Scheduler) (current : Option Nat) (resting : List Nat) :
    Prop where
  descends : s.Descends
  known : ∀ id ∈ s.queue ++ resting, id < s.workers.size
  fits : ∀ (id : Nat) (w : Worker), s.workers[id]? = some w →
    w.Fits (s.isForeground id) (current = some id) (s.queue.count id) (resting.count id)
      (s.inFlight id w.joins)

namespace Scheduler

variable {s s' : Scheduler} {id : Nat} {w : Worker} {current current' : Option Nat}
  {rest rest' : List Nat}

theorem workers_change_cases {g : Worker → Worker} {i : Nat} {v : Worker}
    (hw : s.workers[id]? = some w) (hv : (s.change id g).workers[i]? = some v) :
    (i = id ∧ v = g w) ∨ (i ≠ id ∧ s.workers[i]? = some v) := by
  rw [workers_change] at hv
  by_cases hi : id = i
  · subst hi
    rw [if_pos rfl, hw] at hv
    exact .inl ⟨rfl, (Option.some.inj hv).symm⟩
  · rw [if_neg hi] at hv
    exact .inr ⟨Ne.symm hi, hv⟩

theorem Descends.change (h : s.Descends) (hw : s.workers[id]? = some w) {g : Worker → Worker}
    (hemployer : (g w).employer? = w.employer?) (hjoins : w.joins ≤ (g w).joins) :
    (s.change id g).Descends := by
  refine ⟨?_, ?_⟩
  · intro i v hv e join he
    obtain ⟨u, hu, hue⟩ : ∃ u : Worker, s.workers[i]? = some u ∧ u.employer? = some (e, join) := by
      rcases workers_change_cases hw hv with ⟨rfl, rfl⟩ | ⟨_, hv⟩
      · exact ⟨w, hw, by rw [← hemployer, he]⟩
      · exact ⟨v, hv, he⟩
    obtain ⟨hlt, hle⟩ := h.employer i u hu e join hue
    refine ⟨hlt, fun v' hv' => ?_⟩
    rcases workers_change_cases hw hv' with ⟨rfl, rfl⟩ | ⟨_, hv'⟩
    · exact Nat.le_trans (hle w hw) hjoins
    · exact hle v' hv'
  · intro i v hv
    rcases workers_change_cases hw hv with ⟨rfl, rfl⟩ | ⟨_, hv⟩
    · rw [hemployer]
      exact h.root i w hw
    · exact h.root i v hv

/-- When one worker changes and nobody else is concerned, it is enough that this one
stands right. -/
theorem Orderly.update (h : s.Orderly current rest) (hw : s.workers[id]? = some w)
    (g : Worker → Worker) (hworkers : s'.workers = (s.change id g).workers)
    (hrunner : s'.runner = s.runner)
    (hother : ∀ i, i ≠ id → s'.queue.count i = s.queue.count i ∧ rest'.count i = rest.count i
      ∧ (current' = some i ↔ current = some i))
    (hemployer : (g w).employer? = w.employer?) (hjoins : w.joins ≤ (g w).joins)
    (hended : (g w).standing = .ended ↔ w.standing = .ended)
    (hfits : (g w).Fits (s.isForeground id) (current' = some id) (s'.queue.count id)
      (rest'.count id) (s.inFlight id (g w).joins)) :
    s'.Orderly current' rest' := by
  have hflight (i join : Nat) : s'.inFlight i join = s.inFlight i join := by
    have hsame : Worker.inFlight i join (g w) = Worker.inFlight i join w := by
      simp only [Worker.inFlight, hemployer, ne_eq, hended]
    have := total_change_of_eq hw hsame
    unfold inFlight
    rw [← this]
    unfold total
    rw [hworkers]
  have hforeground (i : Nat) : s'.isForeground i = s.isForeground i := by
    unfold isForeground
    rw [hrunner]
  have hchanged := h.descends.change hw hemployer hjoins
  refine ⟨⟨?_, ?_⟩, ?_, ?_⟩
  · rw [hworkers]
    exact hchanged.employer
  · rw [hworkers]
    exact hchanged.root
  · intro i hi
    have hsize : s'.workers.size = s.workers.size := by
      rw [hworkers]
      exact Array.size_modify
    rw [hsize]
    by_cases hid : i = id
    · rw [hid]
      exact lt_size hw
    · obtain ⟨hqueue, hrest, _⟩ := hother i hid
      refine h.known i ?_
      rw [← List.count_pos_iff, List.count_append] at hi ⊢
      omega
  · intro i v hv
    rw [hforeground, hflight]
    rw [hworkers] at hv
    rcases workers_change_cases hw hv with ⟨rfl, rfl⟩ | ⟨hi, hv⟩
    · exact hfits
    · obtain ⟨hqueue, hrest, hcurrent⟩ := hother i hi
      rw [hqueue, hrest, hcurrent]
      exact h.fits i v hv

/-! ### Tasks in flight -/

/-- Whoever counts a task as in flight has one. -/
theorem exists_of_inFlight_pos {e join : Nat} (h : 0 < s.inFlight e join) :
    ∃ (i : Nat) (v : Worker), s.workers[i]? = some v ∧ v.employer? = some (e, join)
      ∧ v.standing ≠ .ended := by
  obtain ⟨n, hn, hpos⟩ := List.sum_pos_iff_exists_pos_nat.mp h
  obtain ⟨v, hv, rfl⟩ := List.mem_map.mp hn
  obtain ⟨i, hi⟩ := List.mem_iff_getElem?.mp hv
  refine ⟨i, v, by simpa using hi, ?_⟩
  unfold Worker.inFlight at hpos
  split at hpos
  next h => exact h
  next => simp at hpos

/-- A join that its worker has not come to has no tasks. -/
theorem Descends.inFlight_eq_zero (h : s.Descends) {e join : Nat}
    (hjoin : ∀ v : Worker, s.workers[e]? = some v → v.joins < join) : s.inFlight e join = 0 := by
  refine Nat.eq_zero_of_not_pos ?_
  intro hpos
  obtain ⟨i, v, hv, he, _⟩ := exists_of_inFlight_pos hpos
  obtain ⟨hlt, hle⟩ := h.employer i v hv e join he
  have hsize : e < s.workers.size := Nat.lt_trans hlt (lt_size hv)
  have hu := Array.getElem?_eq_getElem hsize
  have := hjoin _ hu
  have := hle _ hu
  omega

/-! ### Starting a task -/

/-- The worker that carries out a task of another one. -/
def task (id : Nat) (w : Worker) (script : Script) : Worker :=
  ⟨script, some (id, w.joins), w.started, 0, 0, 0, 0, .called⟩

/-- The state with one more worker in the queue. -/
def hire (s : Scheduler) (v : Worker) : Scheduler :=
  { s with workers := s.workers.push v, called := s.workers.size :: s.called }

theorem start_eq (hw : s.workers[id]? = some w) (script : Script) :
    s.start id script
      = (s.hire (task id w script)).change id fun w => { w with started := w.started + 1 } := by
  simp only [start, hw]
  rfl

theorem workers_hire {v u : Worker} {i : Nat} (hu : (s.hire v).workers[i]? = some u) :
    (i = s.workers.size ∧ u = v) ∨ s.workers[i]? = some u := by
  unfold hire at hu
  rw [Array.getElem?_push] at hu
  split at hu
  next hi => exact .inl ⟨hi, (Option.some.inj hu).symm⟩
  next => exact .inr hu

theorem workers_hire_of_lt (v : Worker) (hw : s.workers[id]? = some w) :
    (s.hire v).workers[id]? = some w := by
  have := lt_size hw
  unfold hire
  rw [Array.getElem?_push, if_neg (by omega), hw]

theorem total_hire (s : Scheduler) (v : Worker) (f : Worker → Nat) :
    (s.hire v).total f = s.total f + f v := by
  unfold total hire
  rw [Array.toList_push, List.map_append, List.sum_append_nat]
  simp

theorem total_start (hw : s.workers[id]? = some w) (script : Script) (f : Worker → Nat) :
    (s.start id script).total f + f w
      = s.total f + f (task id w script) + f { w with started := w.started + 1 } := by
  rw [start_eq hw, total_change (workers_hire_of_lt _ hw), total_hire]

theorem Descends.hire (h : s.Descends) (hw : s.workers[id]? = some w) (script : Script) :
    (s.hire (task id w script)).Descends := by
  have hsize := lt_size hw
  refine ⟨?_, ?_⟩
  · intro i v hv e join he
    rcases workers_hire hv with ⟨rfl, rfl⟩ | hv
    · obtain ⟨rfl, rfl⟩ : id = e ∧ w.joins = join := by simpa [task] using he
      refine ⟨hsize, fun u hu => ?_⟩
      rw [workers_hire_of_lt _ hw] at hu
      exact Nat.le_of_eq (congrArg Worker.joins (Option.some.inj hu))
    · obtain ⟨hlt, hle⟩ := h.employer i v hv e join he
      refine ⟨hlt, fun u hu => ?_⟩
      rcases workers_hire hu with ⟨rfl, _⟩ | hu
      · have := lt_size hv
        omega
      · exact hle u hu
  · intro i v hv
    rcases workers_hire hv with ⟨rfl, rfl⟩ | hv
    · simp only [task, first, reduceCtorEq, false_iff]
      omega
    · exact h.root i v hv

theorem inFlight_start (hw : s.workers[id]? = some w) (script : Script) (i join : Nat) :
    (s.start id script).inFlight i join
      = s.inFlight i join + if i = id ∧ join = w.joins then 1 else 0 := by
  have htotal := total_start hw script (Worker.inFlight i join)
  have hsame : Worker.inFlight i join { w with started := w.started + 1 }
      = Worker.inFlight i join w := rfl
  have hnew : Worker.inFlight i join (task id w script)
      = if i = id ∧ join = w.joins then 1 else 0 := by
    simp only [Worker.inFlight, task, Option.some.injEq, Prod.mk.injEq, ne_eq, reduceCtorEq,
      not_false_eq_true, and_true, eq_comm]
  unfold inFlight
  omega

theorem queue_start (hw : s.workers[id]? = some w) (script : Script) (i : Nat) :
    (s.start id script).queue.count i
      = s.queue.count i + if s.workers.size = i then 1 else 0 := by
  rw [start_eq hw]
  show (s.ready ++ s.workers.size :: s.called).count i = (s.ready ++ s.called).count i + _
  rw [List.count_append, List.count_append, List.count_cons]
  simp only [beq_iff_eq]
  omega

theorem workers_start_cases {script : Script} {i : Nat} {v : Worker}
    (hw : s.workers[id]? = some w) (hv : (s.start id script).workers[i]? = some v) :
    (i = s.workers.size ∧ v = task id w script)
      ∨ (i = id ∧ v = { w with started := w.started + 1 })
      ∨ (i ≠ id ∧ s.workers[i]? = some v) := by
  rw [start_eq hw] at hv
  rcases workers_change_cases (workers_hire_of_lt _ hw) hv with hv | ⟨hi, hv⟩
  · exact .inr (.inl hv)
  · rcases workers_hire hv with hv | hv
    · exact .inl hv
    · exact .inr (.inr ⟨hi, hv⟩)

/-- The worker of a new task stands right: it has no tasks of its own, and nobody knew
it before. -/
theorem Orderly.fits_task (h : s.Orderly (some id) rest) (hw : s.workers[id]? = some w)
    {script : Script} (hscript : Script.Sound script) :
    (task id w script).Fits (s.isForeground s.workers.size) (some id = some s.workers.size)
      (s.queue.count s.workers.size + 1) (rest.count s.workers.size)
      (s.inFlight s.workers.size (task id w script).joins) := by
  have hlt := lt_size hw
  have habsent : (s.queue ++ rest).count s.workers.size = 0 := by
    refine List.count_eq_zero.mpr ?_
    intro hmem
    exact Nat.lt_irrefl _ (h.known _ hmem)
  rw [List.count_append] at habsent
  have hflight : s.inFlight s.workers.size 0 = 0 := by
    refine Nat.eq_zero_of_not_pos ?_
    intro hpos
    obtain ⟨j, u, hu, he, _⟩ := exists_of_inFlight_pos hpos
    have := (h.descends.employer j u hu _ _ he).1
    have := lt_size hu
    omega
  have hforeground : s.isForeground s.workers.size = false := by
    have : s.workers.size ≠ first := by
      unfold first
      omega
    simp [isForeground, this]
  refine ⟨?_, ?_, Nat.le_refl _, ?_, fun _ => Script.soundWith_zero.mpr hscript, ?_, ?_, ?_, ?_⟩
  · rw [hforeground]
    simp only [task, and_self, if_true]
    omega
  · simp only [task, reduceCtorEq, if_false]
    omega
  · show 0 = 0 + s.inFlight s.workers.size 0
    rw [hflight]
  · simp [task]
  · simp [task]
  · simp [task]
  · intro hcurrent
    have := Option.some.inj hcurrent
    omega

/-- The current worker stands right when it has one more task in flight. -/
theorem Orderly.fits_employer (h : s.Orderly (some id) rest) (hw : s.workers[id]? = some w) :
    Worker.Fits { w with started := w.started + 1 } (s.isForeground id) (some id = some id)
      (s.queue.count id) (rest.count id) (s.inFlight id w.joins + 1) := by
  obtain ⟨hqueued, hrest, hanswered, hstarted, _, _, _, hdone, hcurrent⟩ := h.fits id w hw
  have hbusy := hcurrent rfl
  refine ⟨hqueued, hrest, hanswered, ?_, fun hn => absurd rfl hn, fun hn => absurd rfl hn, ?_,
    hdone, hcurrent⟩
  · show w.started + 1 = w.completed + (s.inFlight id w.joins + 1)
    omega
  · simp [hbusy]

theorem Orderly.start (h : s.Orderly (some id) rest) (hw : s.workers[id]? = some w)
    {script : Script} (hscript : Script.Sound script) :
    (s.start id script).Orderly (some id) rest := by
  have hlt := lt_size hw
  have hsize : (s.start id script).workers.size = s.workers.size + 1 := by
    rw [start_eq hw]
    simp [Scheduler.change, Scheduler.hire]
  have hforeground (i : Nat) : (s.start id script).isForeground i = s.isForeground i := by
    rw [start_eq hw]
    rfl
  refine ⟨?_, ?_, ?_⟩
  · rw [start_eq hw]
    exact (h.descends.hire hw script).change (workers_hire_of_lt _ hw) rfl (Nat.le_refl _)
  · intro i hi
    rw [hsize]
    by_cases hi' : i = s.workers.size
    · omega
    · have hmem : i ∈ s.queue ++ rest := by
        rw [← List.count_pos_iff, List.count_append] at hi ⊢
        rw [queue_start hw, if_neg (Ne.symm hi')] at hi
        exact hi
      exact Nat.lt_succ_of_lt (h.known i hmem)
  · intro i v hv
    rw [queue_start hw, inFlight_start hw, hforeground]
    rcases workers_start_cases hw hv with ⟨rfl, rfl⟩ | ⟨rfl, rfl⟩ | ⟨hi, hv⟩
    · rw [if_pos rfl, if_neg (fun hid => by omega)]
      exact h.fits_task hw hscript
    · rw [if_neg (by omega), if_pos ⟨rfl, rfl⟩]
      exact h.fits_employer hw
    · have := lt_size hv
      rw [if_neg (by omega), if_neg (fun hid => hi hid.1)]
      exact h.fits i v hv

/-! ### Calling a worker -/

theorem call_of_called (hw : s.workers[id]? = some w) (h : w.standing = .called) :
    s.call id = s := by
  simp [call, hw, Worker.isCalled, h]

theorem call_eq (hw : s.workers[id]? = some w) (h : w.standing ≠ .called) :
    s.call id
      = if s.isForeground id then s.change id fun w => { w with standing := .called }
        else { s.change id fun w => { w with standing := .called } with called := id :: s.called } := by
  simp only [call, hw, Worker.isCalled, h, decide_false, Bool.false_eq_true, if_false]
  rfl

theorem queue_call (hw : s.workers[id]? = some w) (h : w.standing ≠ .called) (i : Nat) :
    (s.call id).queue.count i
      = s.queue.count i + if id = i ∧ s.isForeground id = false then 1 else 0 := by
  rw [call_eq hw h]
  cases hforeground : s.isForeground id with
  | true =>
    simp only [if_true, Bool.true_eq_false, and_false, if_false, Nat.add_zero]
    rfl
  | false =>
    show (s.ready ++ id :: s.called).count i = (s.ready ++ s.called).count i + _
    rw [List.count_append, List.count_append, List.count_cons]
    simp only [beq_iff_eq, and_true]
    omega

theorem Orderly.call (h : s.Orderly current rest) (hw : s.workers[id]? = some w)
    (hcurrent : ∀ i, i ≠ id → current ≠ some i)
    (hstanding : w.standing = .busy ∨ w.standing = .resting)
    (hrest : ∀ i, rest.count i
      = rest'.count i + if id = i ∧ w.standing = .resting then 1 else 0)
    (hsound : w.script.SoundWith (w.started - w.answered)) : (s.call id).Orderly none rest' := by
  obtain ⟨hqueued, hresting, hanswered, hstarted, _, _, _, hdone, _⟩ := h.fits id w hw
  have hcalled : w.standing ≠ .called := by rcases hstanding with h | h <;> simp [h]
  have hended : w.standing ≠ .ended := by rcases hstanding with h | h <;> simp [h]
  refine h.update hw (fun w => { w with standing := .called }) ?_ ?_ (fun i hi => ⟨?_, ?_, ?_⟩)
    rfl (Nat.le_refl _) ?_ ?_
  · rw [call_eq hw hcalled]
    split <;> rfl
  · rw [call_eq hw hcalled]
    split <;> rfl
  · rw [queue_call hw hcalled, if_neg (fun hid => hi hid.1.symm), Nat.add_zero]
  · rw [hrest, if_neg (fun hid => hi hid.1.symm), Nat.add_zero]
  · simp [hcurrent i hi]
  · simp [hended]
  · rw [if_neg (fun hid => hcalled hid.1)] at hqueued
    have hrest := hrest id
    rw [hresting] at hrest
    refine ⟨?_, ?_, hanswered, hstarted, fun _ => hsound, ?_, ?_, ?_, ?_⟩
    · rw [queue_call hw hcalled, hqueued]
      simp
    · simp only [true_and] at hrest
      simp only [reduceCtorEq, if_false]
      omega
    · simp
    · simp
    · simp
    · simp

/-! ### Ending -/

/-- When the current worker ends everyone still stands right, but for the employer of
that worker, who has one task less in flight and does not know of it. -/
theorem Orderly.fits_ended (h : s.Orderly (some id) rest) (hw : s.workers[id]? = some w)
    (hscript : w.script = []) (hsettled : w.started = w.answered) {i : Nat} {v : Worker}
    (hv : (s.change id fun w => { w with standing := .ended }).workers[i]? = some v) :
    v.Fits (s.isForeground i) (none = some i) (s.queue.count i) (rest.count i)
      ((s.change id fun w => { w with standing := .ended }).inFlight i v.joins
        + if w.employer? = some (i, v.joins) then 1 else 0) := by
  obtain ⟨hqueued, hresting, hanswered, hstarted, _, _, _, _, hcurrent⟩ := h.fits id w hw
  have hbusy := hcurrent rfl
  have hflight (i join : Nat) : (s.change id fun w => { w with standing := .ended }).inFlight i join
      + (if w.employer? = some (i, join) then 1 else 0) = s.inFlight i join := by
    have htotal := total_change hw (fun w => { w with standing := .ended }) (Worker.inFlight i join)
    have hbefore : Worker.inFlight i join w = if w.employer? = some (i, join) then 1 else 0 := by
      simp [Worker.inFlight, hbusy]
    have hafter : Worker.inFlight i join { w with standing := .ended } = 0 := by
      simp [Worker.inFlight]
    unfold inFlight
    omega
  rw [hflight]
  rcases workers_change_cases hw hv with ⟨rfl, rfl⟩ | ⟨hi, hv⟩
  · refine ⟨?_, ?_, hanswered, hstarted, fun _ => ?_, fun _ => ?_, fun _ => hsettled,
      fun _ => hscript, fun hn => by simp at hn⟩
    · rw [hqueued, hbusy]
      simp
    · rw [hresting, hbusy]
      simp
    · simp only [hscript, hsettled, Nat.sub_self]
      exact ⟨rfl, trivial⟩
    · simp
  · have hne : (some id = some i) = (none = some i) := by
      simp [Ne.symm hi]
    rw [← hne]
    exact h.fits i v hv

theorem Orderly.report (h : s.Orderly current rest) (r : Report) :
    (s.report r).Orderly current rest :=
  ⟨⟨h.descends.employer, h.descends.root⟩, h.known, h.fits⟩

/-- A worker who ends and whose employer, if it has one, waits for a later join. -/
theorem Orderly.ended (h : s.Orderly (some id) rest) (hw : s.workers[id]? = some w)
    (hscript : w.script = []) (hsettled : w.started = w.answered)
    (hemployer : ∀ (i : Nat) (v : Worker), s.workers[i]? = some v →
      w.employer? ≠ some (i, v.joins)) :
    (s.change id fun w => { w with standing := .ended }).Orderly none rest := by
  refine ⟨h.descends.change hw rfl (Nat.le_refl _), ?_, ?_⟩
  · intro i hi
    have hsize : (s.change id fun w => { w with standing := .ended }).workers.size
        = s.workers.size := Array.size_modify
    rw [hsize]
    exact h.known i hi
  · intro i v hv
    have hfits := h.fits_ended hw hscript hsettled hv
    obtain ⟨u, hu, hjoins⟩ : ∃ u : Worker, s.workers[i]? = some u ∧ v.joins = u.joins := by
      rcases workers_change_cases hw hv with ⟨rfl, rfl⟩ | ⟨_, hv⟩
      · exact ⟨w, hw, rfl⟩
      · exact ⟨v, hv, rfl⟩
    rw [if_neg (by rw [hjoins]; exact hemployer i u hu), Nat.add_zero] at hfits
    exact hfits

/-- A worker who ends, and whose employer waits for it, is counted as completed. -/
theorem Orderly.ended_counted (h : s.Orderly (some id) rest) (hw : s.workers[id]? = some w)
    (hscript : w.script = []) (hsettled : w.started = w.answered) {e : Nat} {v : Worker}
    (hv : s.workers[e]? = some v) (hemployer : w.employer? = some (e, v.joins)) :
    (v.standing = .busy ∨ v.standing = .called) ∧ v.completed < v.started
      ∧ v.script.SoundWith (v.started - v.answered)
      ∧ ((s.change id fun w => { w with standing := .ended }).change e
          fun v => { v with completed := v.completed + 1 }).Orderly
            (if v.standing = .busy then some e else none) rest := by
  have hlt := (h.descends.employer id w hw e _ hemployer).1
  have hmarked : (s.change id fun w => { w with standing := .ended }).workers[e]? = some v := by
    rw [workers_change, if_neg (by omega), hv]
  obtain ⟨hqueued, hresting, hanswered, hstarted, hsound, _, hset, hdone, _⟩ :=
    h.fits_ended hw hscript hsettled hmarked
  rw [if_pos hemployer] at hstarted
  have hstanding : v.standing = .busy ∨ v.standing = .called := by
    cases hs : v.standing with
    | busy => exact .inl rfl
    | called => exact .inr rfl
    | resting => have := hset (.inl hs); omega
    | ended => have := hset (.inr hs); omega
  refine ⟨hstanding, by omega, hsound (by simp), ?_, fun i hi => ?_, fun i u hu => ?_⟩
  · exact (h.descends.change hw rfl (Nat.le_refl _)).change hmarked rfl (Nat.le_refl _)
  · have hsize : ((s.change id fun w => { w with standing := .ended }).change e
        fun v => { v with completed := v.completed + 1 }).workers.size = s.workers.size := by
      simp [Scheduler.change]
    rw [hsize]
    exact h.known i hi
  · have hflight (i join : Nat) : ((s.change id fun w => { w with standing := .ended }).change e
        fun v => { v with completed := v.completed + 1 }).inFlight i join
          = (s.change id fun w => { w with standing := .ended }).inFlight i join :=
      total_change_of_eq hmarked rfl
    rw [hflight]
    rcases workers_change_cases hmarked hu with ⟨rfl, rfl⟩ | ⟨hi, hu⟩
    · refine ⟨hqueued, hresting, ?_, ?_, fun _ => hsound (by simp), fun hn hb => ?_, fun hs => ?_,
        hdone, fun hn => ?_⟩
      · show v.answered ≤ v.completed + 1
        omega
      · show v.started = v.completed + 1 + Scheduler.inFlight _ i v.joins
        omega
      · have hb : v.standing = .busy := hb
        simp [hb] at hn
      · have hs : v.standing = .resting ∨ v.standing = .ended := hs
        rcases hstanding with hb | hb <;> simp [hb] at hs
      · show v.standing = .busy
        split at hn
        next hb => exact hb
        next => simp at hn
    · have hfits := h.fits_ended hw hscript hsettled hu
      have hother : w.employer? ≠ some (i, u.joins) := by
        rw [hemployer]
        intro heq
        exact hi (Prod.mk.inj (Option.some.inj heq)).1.symm
      rw [if_neg hother, Nat.add_zero] at hfits
      have hcurrent : ((if v.standing = .busy then some e else none) = some i)
          = ((none : Option Nat) = some i) := by
        split <;> simp [Ne.symm hi]
      rw [hcurrent]
      exact hfits

/-- What a worker reports at the end of its script. -/
def farewell (w : Worker) : Report :=
  match w.employer? with
  | none => .ended
  | some (employer, _) => .completed employer w.index

/-- A worker for whose join nobody waits any more ends and is done with. -/
theorem finish_alone (hw : s.workers[id]? = some w)
    (halone : ∀ (i : Nat) (v : Worker), s.workers[i]? = some v →
      w.employer? ≠ some (i, v.joins)) :
    s.finish id = (s.change id fun w => { w with standing := .ended }).report (farewell w) := by
  cases hemployer : w.employer? with
  | none => simp [finish, hw, hemployer, farewell]
  | some task =>
    obtain ⟨e, join⟩ := task
    have hother : (s.change id fun w => { w with standing := .ended }).workers[e]?.any
        (·.joins = join) = false := by
      rw [workers_change]
      cases hv : s.workers[e]? with
      | none => split <;> simp
      | some v =>
        have hjoins : v.joins ≠ join := by
          rintro rfl
          exact halone e v hv hemployer
        split <;> simp [hjoins]
    have hreported : ((s.change id fun w => { w with standing := .ended }).report
        (.completed e w.index)).workers[e]?.any (·.joins = join) = false := hother
    simp [finish, hw, hemployer, farewell, hreported]

theorem finish_counted (hw : s.workers[id]? = some w) {e : Nat} {v : Worker} (he : e ≠ id)
    (hv : s.workers[e]? = some v) (hemployer : w.employer? = some (e, v.joins)) :
    s.finish id
      = (((s.change id fun w => { w with standing := .ended }).report (farewell w)).change e
          fun v => { v with completed := v.completed + 1 }).call e := by
  have hmarked : (s.change id fun w => { w with standing := .ended }).workers[e]? = some v := by
    rw [workers_change, if_neg (Ne.symm he), hv]
  have hreported : ((s.change id fun w => { w with standing := .ended }).report
      (.completed e w.index)).workers[e]? = some v := hmarked
  simp [finish, hw, hemployer, farewell, hreported]

/-- What happens when the current worker is at the end of its script: nobody waits for
it, or its employer counts it as completed and is called. -/
theorem Orderly.finish_cases (h : s.Orderly (some id) rest) (hw : s.workers[id]? = some w)
    (hscript : w.script = []) (hsettled : w.started = w.answered) :
    (s.finish id = (s.change id fun w => { w with standing := .ended }).report (farewell w)
        ∧ (s.finish id).Orderly none rest)
      ∨ ∃ (e : Nat) (v : Worker) (t : Scheduler), e ≠ id ∧ s.workers[e]? = some v
        ∧ w.employer? = some (e, v.joins) ∧ v.completed < v.started
        ∧ t = ((s.change id fun w => { w with standing := .ended }).report (farewell w)).change e
            (fun v => { v with completed := v.completed + 1 })
        ∧ (v.standing = .busy ∧ s.finish id = t.call e ∨ v.standing = .called ∧ s.finish id = t)
        ∧ (s.finish id).Orderly none rest := by
  by_cases halone : ∀ (i : Nat) (v : Worker), s.workers[i]? = some v →
      w.employer? ≠ some (i, v.joins)
  · left
    rw [finish_alone hw halone]
    exact ⟨rfl, (h.ended hw hscript hsettled halone).report _⟩
  · right
    obtain ⟨e, v, hv, hemployer⟩ : ∃ (e : Nat) (v : Worker), s.workers[e]? = some v
        ∧ w.employer? = some (e, v.joins) := by
      simpa only [Classical.not_forall, Decidable.not_not, exists_prop] using halone
    have hlt := (h.descends.employer id w hw e _ hemployer).1
    have hne : e ≠ id := by omega
    have hfinish := finish_counted hw hne hv hemployer
    obtain ⟨hstanding, hcompleted, hsound, hcounted⟩ :=
      h.ended_counted hw hscript hsettled hv hemployer
    let t := ((s.change id fun w => { w with standing := .ended }).report (farewell w)).change e
      fun v => { v with completed := v.completed + 1 }
    have hget : t.workers[e]? = some { v with completed := v.completed + 1 } := by
      refine workers_change_self ?_ _
      show (s.change id fun w => { w with standing := .ended }).workers[e]? = some v
      rw [workers_change, if_neg (Ne.symm hne), hv]
    have hreported : t.Orderly (if v.standing = .busy then some e else none) rest :=
      hcounted.report (farewell w)
    refine ⟨e, v, t, hne, hv, hemployer, hcompleted, rfl, ?_⟩
    rcases hstanding with hs | hs
    · rw [if_pos hs] at hreported
      refine ⟨.inl ⟨hs, hfinish⟩, ?_⟩
      rw [hfinish]
      exact hreported.call hget (fun i hi heq => hi (Option.some.inj heq).symm) (.inl hs)
        (fun i => by simp [hs]) hsound
    · rw [if_neg (by simp [hs])] at hreported
      rw [call_of_called hget hs] at hfinish
      refine ⟨.inr ⟨hs, hfinish⟩, ?_⟩
      rw [hfinish]
      exact hreported

end Scheduler

end DocTemplate
