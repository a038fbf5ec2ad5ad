/-
Tasks that only wait, carried out by the scheduler.

While the tasks of a join are carried out no time passes as long as somebody can go on, so a
task that has completed is answered to, and the next one started, at the time of its end.  The
times when such tasks start and end are therefore those of a timeline.

* `Scheduler.Kept` — the tasks that were started keep to their spans, which follow the law;
* `Scheduler.Awaits` — the first worker starts tasks as soon as its places allow it;
* `Scheduler.OnTime` — both, between two steps of the scheduler; every step keeps it;
* `Script.play_join` — what is reported of a join, and when.
-/
import DocTemplate.Proofs.InTurn
import DocTemplate.Proofs.Timetable
import Mathlib.Algebra.Order.BigOperators.Group.List
import Mathlib.Algebra.Order.Group.Nat
import Mathlib.Data.List.TakeWhile

namespace DocTemplate

open Timeline

/-! ### Scripts that wait -/

namespace Script

/-- A script that does nothing but wait. -/
def OnlyWaits (script : Script) : Prop := ∀ act ∈ script, ∃ ms, act = .wait ms

/-- The milliseconds that a script waits. -/
def waits : Script → Nat
  | .wait ms :: script => ms + waits script
  | _ :: script => waits script
  | [] => 0

theorem OnlyWaits.of_cons {act : Act} {script : Script} (h : OnlyWaits (act :: script)) :
    (∃ ms, act = .wait ms) ∧ script.OnlyWaits :=
  ⟨h act List.mem_cons_self, fun a ha => h a (List.mem_cons_of_mem _ ha)⟩

theorem OnlyWaits.cases {script : Script} (h : script.OnlyWaits) :
    script = [] ∨ ∃ ms later, script = .wait ms :: later ∧ OnlyWaits later := by
  cases script with
  | nil => exact .inl rfl
  | cons act later =>
    obtain ⟨⟨ms, rfl⟩, hlater⟩ := h.of_cons
    exact .inr ⟨ms, later, rfl, hlater⟩

theorem OnlyWaits.sound {script : Script} (h : script.OnlyWaits) : Script.Sound script := by
  induction script with
  | nil => trivial
  | cons act script ih =>
    obtain ⟨⟨ms, rfl⟩, hlater⟩ := h.of_cons
    exact ⟨trivial, ih hlater⟩

end Script

namespace Scheduler

variable {s s' : Scheduler} {id i : Nat} {w : Worker} {places : Nat} {durations : List Nat}
  {ss : List Span} {started queued : List Script} {answers : List (List Observation)}

/-! ### Tasks on time -/

/-- A worker carries out a task of the first join, and comes to its end at a time. -/
structure Punctual (s : Scheduler) (i : Nat) (w : Worker) (finish : Nat) : Prop where
  employer : w.employer? = some (first, 0)
  index : w.index = i
  alone : w.started = 0
  onlyWaits : w.script.OnlyWaits
  active : w.standing = .called ∨ w.standing = .busy → s.time + w.script.waits = finish
  waiting : ∀ t, (t, i + 1) ∈ s.waiting → t + w.script.waits = finish
  ended : w.standing = .ended → finish ≤ s.time ∧ (finish, Report.completed first i) ∈ s.reports

theorem Punctual.frame {finish : Nat} (h : s.Punctual i w finish) (htime : s'.time = s.time)
    (hwaiting : ∀ t, (t, i + 1) ∈ s'.waiting → (t, i + 1) ∈ s.waiting)
    (hreports : ∀ r ∈ s.reports, r ∈ s'.reports) : s'.Punctual i w finish := by
  refine ⟨h.employer, h.index, h.alone, h.onlyWaits, ?_, fun t ht => h.waiting t (hwaiting t ht), ?_⟩
  · rw [htime]
    exact h.active
  · intro hended
    obtain ⟨hle, hreport⟩ := h.ended hended
    exact ⟨htime ▸ hle, hreports _ hreport⟩

/-- The tasks that were started keep to their spans, and these follow the law. -/
structure Kept (places : Nat) (durations : List Nat) (s : Scheduler) (ss : List Span) : Prop where
  size : s.workers.size = ss.length + 1
  tasks : ∀ (i : Nat) (span : Span), ss[i]? = some span →
    ∃ w, s.workers[i + 1]? = some w ∧ s.Punctual i w span.finish
  timely : Timely places (durations.take ss.length) ss
  time_le : s.time ≤ Timeline.finish ss
  gaveWay : s.gaveWay = []
  ascending : s.waiting.Pairwise fun e e' => e.1 ≤ e'.1
  later : ∀ e ∈ s.waiting, s.time ≤ e.1

/-- Only the first worker changes, or nobody. -/
theorem Kept.frame (h : Kept places durations s ss)
    (hsize : s'.workers.size = s.workers.size)
    (hworkers : ∀ i, s'.workers[i + 1]? = s.workers[i + 1]?) (htime : s'.time = s.time)
    (hgaveWay : s'.gaveWay = s.gaveWay) (hwaiting : s'.waiting = s.waiting)
    (hreports : ∀ r ∈ s.reports, r ∈ s'.reports) : Kept places durations s' ss := by
  refine ⟨hsize.trans h.size, ?_, h.timely, htime ▸ h.time_le, hgaveWay.trans h.gaveWay,
    hwaiting ▸ h.ascending, ?_⟩
  · intro i span hspan
    obtain ⟨w, hw, hpunctual⟩ := h.tasks i span hspan
    refine ⟨w, (hworkers i).trans hw, hpunctual.frame htime ?_ hreports⟩
    rw [hwaiting]
    exact fun _ => id
  · rw [hwaiting, htime]
    exact h.later

theorem Kept.change_first (h : Kept places durations s ss) (g : Worker → Worker) :
    Kept places durations (s.change first g) ss := by
  refine h.frame Array.size_modify ?_ rfl rfl rfl fun _ => id
  intro i
  rw [workers_change, if_neg (by unfold first; omega)]

/-! ### Tasks in flight -/

/-- Workers in flight side by side with spans that are not at their end. -/
theorem unfinished_le_sum {ws : List Worker} {t : Nat} {f : Worker → Nat}
    (h : List.Forall₂ (fun (span : Span) w => t < span.finish → 0 < f w) ss ws) :
    unfinished ss t ≤ (ws.map f).sum := by
  induction h with
  | nil => exact Nat.le_refl _
  | @cons span w ss ws hw _ ih =>
    obtain ⟨start, finish⟩ := span
    show unfinished ([⟨start, finish⟩] ++ ss) t ≤ _
    rw [unfinished_append, unfinished_singleton, List.map_cons, List.sum_cons]
    split
    next hlt =>
      have := hw hlt
      omega
    next => omega

theorem sum_le_unfinished {ws : List Worker} {t : Nat} {f : Worker → Nat}
    (h : List.Forall₂ (fun (span : Span) w => f w ≤ if t < span.finish then 1 else 0) ss ws) :
    (ws.map f).sum ≤ unfinished ss t := by
  induction h with
  | nil => exact Nat.le_refl _
  | @cons span w ss ws hw _ ih =>
    obtain ⟨start, finish⟩ := span
    show _ ≤ unfinished ([⟨start, finish⟩] ++ ss) t
    rw [unfinished_append, unfinished_singleton, List.map_cons, List.sum_cons]
    exact Nat.add_le_add hw ih

/-- The workers behind the first one, side by side with the spans of their tasks. -/
theorem Kept.forall₂ (h : Kept places durations s ss) {R : Span → Worker → Prop}
    (hR : ∀ (i : Nat) (span : Span) (w : Worker), ss[i]? = some span →
      s.workers[i + 1]? = some w → s.Punctual i w span.finish → R span w) :
    List.Forall₂ R ss s.workers.toList.tail := by
  refine List.forall₂_iff_get.mpr ⟨?_, ?_⟩
  · simp [h.size]
  · intro i hi hi'
    obtain ⟨w, hw, hpunctual⟩ := h.tasks i _ (List.getElem?_eq_getElem hi)
    have hget : s.workers.toList.tail.get ⟨i, hi'⟩ = w := by
      rw [List.get_eq_getElem, List.getElem_tail]
      rw [← Array.getElem?_toList] at hw
      exact (List.getElem?_eq_some_iff.mp hw).2
    rw [hget]
    exact hR i _ w (List.getElem?_eq_getElem hi) hw hpunctual

theorem inFlight_first (hw : s.workers[first]? = some w) (hroot : w.employer? = none) :
    s.inFlight first 0 = (s.workers.toList.tail.map (Worker.inFlight first 0)).sum := by
  have hlist : s.workers.toList = w :: s.workers.toList.tail := by
    have hhead : s.workers.toList.head? = some w := by
      rw [List.head?_eq_getElem?, Array.getElem?_toList]
      exact hw
    exact (List.cons_head?_tail hhead).symm
  have hzero : w.inFlight first 0 = 0 := by
    rw [Worker.inFlight, if_neg fun hflight => by simp [hroot] at hflight]
  rw [inFlight, total, hlist, List.map_cons, List.sum_cons, hzero, Nat.zero_add, List.tail_cons]

/-- A task that is not at its end now is in flight. -/
theorem Kept.unfinished_le (h : Kept places durations s ss) (hw : s.workers[first]? = some w)
    (hroot : w.employer? = none) : unfinished ss s.time ≤ s.inFlight first 0 := by
  rw [inFlight_first hw hroot]
  refine unfinished_le_sum (h.forall₂ ?_)
  intro i span v _ _ hpunctual hlt
  have halive : v.standing ≠ .ended := by
    intro hended
    have := (hpunctual.ended hended).1
    omega
  rw [Worker.inFlight, if_pos ⟨hpunctual.employer, halive⟩]
  exact Nat.one_pos

/-- Tasks in flight that come to their end after a time are not at their end then. -/
theorem Kept.inFlight_le (h : Kept places durations s ss) (hw : s.workers[first]? = some w)
    (hroot : w.employer? = none) {t : Nat}
    (hlate : ∀ (i : Nat) (span : Span) (v : Worker), ss[i]? = some span →
      s.workers[i + 1]? = some v → s.Punctual i v span.finish → v.standing ≠ .ended →
        t < span.finish) : s.inFlight first 0 ≤ unfinished ss t := by
  rw [inFlight_first hw hroot]
  refine sum_le_unfinished (h.forall₂ ?_)
  intro i span v hspan hv hpunctual
  rw [Worker.inFlight]
  split
  next hflight => rw [if_pos (hlate i span v hspan hv hpunctual hflight.2)]
  next => exact Nat.zero_le _

/-! ### The first worker -/

/-- The first worker is in its join: it has started as many tasks as its places and its answers
allow, and all tasks that were at their end before now are answered to. -/
structure Awaits (places : Nat) (durations : List Nat) (time : Nat) (ss : List Span) (w : Worker)
    (started queued : List Script) (answers : List (List Observation)) : Prop where
  joins : w.joins = 0
  hired : w.started = ss.length
  onlyWaits : ∀ script ∈ started ++ queued, script.OnlyWaits
  waits : (started ++ queued).map Script.waits = durations.drop ss.length
  length_eq : ss.length + started.length = min durations.length (places + w.answered)
  answers : w.answered + answers.length = durations.length
  beginning : started ≠ [] → time = 0 ∧ w.answered = 0
  late : ∀ t < time, ss.length ≤ unfinished ss t + w.answered

/-- Only the numbers of its tasks play a part. -/
theorem Awaits.congr {time : Nat} {w' : Worker}
    (h : Awaits places durations time ss w started queued answers) (hjoins : w'.joins = w.joins)
    (hstarted : w'.started = w.started) (hanswered : w'.answered = w.answered) :
    Awaits places durations time ss w' started queued answers := by
  refine ⟨hjoins.trans h.joins, hstarted.trans h.hired, h.onlyWaits, h.waits, ?_, ?_, ?_, ?_⟩
  · rw [hanswered]
    exact h.length_eq
  · rw [hanswered]
    exact h.answers
  · rw [hanswered]
    exact h.beginning
  · rw [hanswered]
    exact h.late

/-- The first worker is at work on its join. -/
structure Attends (places : Nat) (durations : List Nat) (s : Scheduler) (ss : List Span)
    (w : Worker) (started queued : List Script) (answers : List (List Observation)) : Prop where
  carries : s.Carries first w [.join started queued answers]
  kept : Kept places durations s ss
  awaits : Awaits places durations s.time ss w started queued answers

theorem answerOnce_eq (s : Scheduler) (id : Nat) (answer : List Observation) :
    s.answerOnce id answer
      = ({ s with reports := (answer.map fun o => (s.time, Report.noted o)).reverse ++ s.reports } :
          Scheduler).change id fun w => { w with answered := w.answered + 1 } := by
  rw [Scheduler.answerOnce, foldl_report]

theorem answerOnce_frame (s : Scheduler) (id : Nat) (answer : List Observation) :
    (s.answerOnce id answer).workers.size = s.workers.size
      ∧ (s.answerOnce id answer).time = s.time
      ∧ (s.answerOnce id answer).waiting = s.waiting := by
  rw [answerOnce_eq]
  exact ⟨Array.size_modify, rfl, rfl⟩

theorem Kept.answerOnce (h : Kept places durations s ss) (answer : List Observation) :
    Kept places durations (s.answerOnce first answer) ss := by
  rw [answerOnce_eq]
  refine Kept.change_first ?_ _
  refine h.frame rfl (fun _ => rfl) rfl rfl rfl ?_
  exact fun r hr => List.mem_append_right _ hr

theorem start_frame (hw : s.workers[id]? = some w) (script : Script) :
    (s.start id script).time = s.time ∧ (s.start id script).gaveWay = s.gaveWay
      ∧ (s.start id script).waiting = s.waiting ∧ (s.start id script).reports = s.reports := by
  rw [start_eq hw]
  exact ⟨rfl, rfl, rfl, rfl⟩

theorem getElem?_start (hw : s.workers[id]? = some w) (script : Script) {v : Worker} (hi : i ≠ id)
    (hv : s.workers[i]? = some v) : (s.start id script).workers[i]? = some v := by
  rw [start_eq hw, workers_change, if_neg (Ne.symm hi), workers_hire_of_lt _ hv]

theorem getElem?_start_size (hw : s.workers[id]? = some w) (script : Script) :
    (s.start id script).workers[s.workers.size]? = some (task id w script) := by
  have hlt := lt_size hw
  rw [start_eq hw, workers_change, if_neg (by omega)]
  simp [hire]

/-- A task that is started at its time keeps to its span. -/
theorem Kept.start (h : Kept places durations s ss) {task : Script}
    (hw : s.workers[first]? = some w) (hjoins : w.joins = 0) (hhired : w.started = ss.length)
    (hnew : ∀ t, (t, s.workers.size) ∉ s.waiting) (htask : task.OnlyWaits)
    (hwaits : durations[ss.length]? = some task.waits)
    (hleast : IsLeast {t | unfinished ss t < places} s.time) :
    Kept places durations (s.start first task) (ss ++ [⟨s.time, s.time + task.waits⟩]) := by
  obtain ⟨htime, hgaveWay, hwaiting, hreports⟩ := start_frame hw task
  refine ⟨?_, ?_, ?_, ?_, hgaveWay.trans h.gaveWay, ?_, ?_⟩
  · rw [start_eq hw]
    simp [Scheduler.change, Scheduler.hire, h.size]
  · intro i span hspan
    rcases getElem?_concat_cases hspan with ⟨_, hspan⟩ | ⟨rfl, rfl⟩
    · obtain ⟨v, hv, hpunctual⟩ := h.tasks i span hspan
      refine ⟨v, getElem?_start hw task (by unfold first; omega) hv,
        hpunctual.frame htime ?_ ?_⟩
      · rw [hwaiting]
        exact fun _ => id
      · rw [hreports]
        exact fun _ => id
    · refine ⟨_, h.size ▸ getElem?_start_size hw task, ?_, hhired, rfl, htask, ?_, ?_, ?_⟩
      · show some (first, w.joins) = some (first, 0)
        rw [hjoins]
      · intro _
        rw [htime]
        rfl
      · intro t ht
        rw [hwaiting, ← h.size] at ht
        exact absurd ht (hnew t)
      · intro hended
        simp [Scheduler.task] at hended
  · have htake : durations.take (ss.length + 1) = durations.take ss.length ++ [task.waits] := by
      rw [List.take_add_one, hwaits]
      rfl
    rw [List.length_append, List.length_singleton, htake]
    exact h.timely.concat hleast _
  · rw [htime]
    exact Nat.le_trans h.time_le (finish_le_iff.mpr fun span hspan =>
      le_finish (List.mem_append_left _ hspan))
  · rw [hwaiting]
    exact h.ascending
  · rw [hwaiting, htime]
    exact h.later

/-- The durations of the tasks that are left, behind the next one. -/
theorem drop_next {task : Script} {tasks : List Script} {n : Nat}
    (h : (task :: tasks).map Script.waits = durations.drop n) :
    durations[n]? = some task.waits ∧ tasks.map Script.waits = durations.drop (n + 1) := by
  constructor
  · rw [← List.head?_drop, ← h]
    rfl
  · rw [← List.tail_drop, ← h]
    rfl

namespace Attends

theorem root (h : Attends places durations s ss w started queued answers) : w.employer? = none :=
  (h.carries.orderly.descends.root first w h.carries.worker).mpr rfl

/-- Nobody waits who is not there. -/
theorem not_waiting (h : Attends places durations s ss w started queued answers) (t : Nat) :
    (t, s.workers.size) ∉ s.waiting := by
  intro hmem
  have hresting : s.workers.size ∈ s.queue ++ s.resting := by
    refine List.mem_append_right _ (List.mem_append_right _ ?_)
    exact List.mem_map_of_mem (f := Prod.snd) hmem
  exact Nat.lt_irrefl _ (h.carries.orderly.known _ hresting)

/-- The tasks with which the join begins are started at once. -/
theorem start {task : Script}
    (h : Attends places durations s ss w (task :: started) queued answers) :
    Attends places durations (s.start first task) (ss ++ [⟨s.time, s.time + task.waits⟩])
      { w with started := w.started + 1 } started queued answers := by
  obtain ⟨hjoins, hhired, hwaits, hdurations, hlength, hanswers, hbeginning, _⟩ := h.awaits
  obtain ⟨hzero, hanswered⟩ := hbeginning (List.cons_ne_nil _ _)
  rw [List.length_cons, hanswered] at hlength
  have hleast : IsLeast {t | unfinished ss t < places} s.time := by
    rw [hzero]
    refine ⟨?_, fun t _ => Nat.zero_le t⟩
    have hcount : unfinished ss 0 ≤ ss.length := List.countP_le_length
    show unfinished ss 0 < places
    omega
  obtain ⟨hhead, hrest⟩ := drop_next hdurations
  have htime := (start_frame h.carries.worker task).1
  refine ⟨h.carries.start.carries, ?_, ?_⟩
  · exact h.kept.start h.carries.worker hjoins hhired h.not_waiting (hwaits task List.mem_cons_self)
      hhead hleast
  · refine ⟨hjoins, ?_, fun x hx => hwaits x (List.mem_cons_of_mem _ hx), ?_, ?_, hanswers,
      fun _ => ⟨htime.trans hzero, hanswered⟩, ?_⟩
    · simp [hhired]
    · rw [List.length_append, List.length_singleton]
      exact hrest
    · rw [List.length_append, List.length_singleton]
      show _ = min durations.length (places + w.answered)
      omega
    · intro t ht
      rw [htime, hzero] at ht
      omega

/-- A task has completed, so the next one can start. -/
theorem isLeast {task : Script}
    (h : Attends places durations s ss w [] (task :: queued) answers)
    (hanswered : w.answered < w.completed) : IsLeast {t | unfinished ss t < places} s.time := by
  obtain ⟨hjoins, hhired, _, hdurations, hlength, _, _, hlate⟩ := h.awaits
  have hmore : ss.length < durations.length := by
    have := congrArg List.length hdurations
    simp only [List.nil_append, List.length_map, List.length_cons, List.length_drop] at this
    omega
  rw [List.length_nil, Nat.add_zero] at hlength
  constructor
  · -- The task that has completed and is not answered to leaves a place.
    have hcount := h.kept.unfinished_le h.carries.worker h.root
    have hstarted := (h.carries.orderly.fits first w h.carries.worker).started
    rw [hjoins] at hstarted
    show unfinished ss s.time < places
    omega
  · -- Before now all places were taken, as all that had completed was answered to.
    intro t ht
    by_contra hlt
    have hbefore := hlate t (by omega)
    have ht : unfinished ss t < places := ht
    omega

theorem answer_nil {answer : List Observation}
    (h : Attends places durations s ss w [] [] (answer :: answers))
    (hanswered : w.answered < w.completed) :
    Attends places durations (s.answerOnce first answer) ss { w with answered := w.answered + 1 }
      [] [] answers := by
  obtain ⟨hjoins, hhired, hwaits, hdurations, hlength, hanswers, _, hlate⟩ := h.awaits
  have hall : durations.length ≤ ss.length := List.drop_eq_nil_iff.mp hdurations.symm
  refine ⟨(h.carries.answer_nil hanswered).carries, h.kept.answerOnce answer, ?_⟩
  · rw [(answerOnce_frame s first answer).2.1]
    refine ⟨hjoins, hhired, hwaits, hdurations, ?_, ?_, fun hne => absurd rfl hne, ?_⟩
    · show _ = min durations.length (places + (w.answered + 1))
      rw [List.length_nil, Nat.add_zero] at hlength ⊢
      omega
    · rw [List.length_cons] at hanswers
      show w.answered + 1 + answers.length = _
      omega
    · intro t ht
      have := hlate t ht
      show ss.length ≤ unfinished ss t + (w.answered + 1)
      omega

theorem answer_start {task : Script} {answer next : List Observation}
    (h : Attends places durations s ss w [] (task :: queued) (answer :: next :: answers))
    (hanswered : w.answered < w.completed) :
    Attends places durations ((s.answerOnce first answer).start first task)
      (ss ++ [⟨s.time, s.time + task.waits⟩])
      { w with answered := w.answered + 1, started := w.started + 1 } [] queued
      (next :: answers) := by
  have hleast := h.isLeast hanswered
  obtain ⟨hjoins, hhired, hwaits, hdurations, hlength, hanswers, _, hlate⟩ := h.awaits
  have hw := workers_answerOnce h.carries.worker answer
  obtain ⟨hsize, htime, hwaiting⟩ := answerOnce_frame s first answer
  obtain ⟨hhead, hrest⟩ := drop_next hdurations
  refine ⟨(h.carries.answer_start hanswered).carries, ?_, ?_⟩
  · have hstart := (h.kept.answerOnce answer).start hw hjoins hhired
      (by rw [hwaiting, hsize]; exact h.not_waiting) (hwaits task List.mem_cons_self) hhead
      (by rw [htime]; exact hleast)
    rwa [htime] at hstart
  · rw [(start_frame hw task).1, htime]
    refine ⟨hjoins, ?_, fun x hx => hwaits x (List.mem_cons_of_mem _ hx), ?_, ?_, ?_,
      fun hne => absurd rfl hne, ?_⟩
    · simp [hhired]
    · rw [List.length_append, List.length_singleton]
      exact hrest
    · have hmore : ss.length < durations.length := (List.getElem?_eq_some_iff.mp hhead).1
      rw [List.length_nil, Nat.add_zero] at hlength
      rw [List.length_append, List.length_singleton, List.length_nil, Nat.add_zero]
      simp only [List.length_cons] at hanswers
      show ss.length + 1 = min durations.length (places + (w.answered + 1))
      omega
    · simp only [List.length_cons] at hanswers ⊢
      omega
    · intro t ht
      have := hlate t ht
      rw [List.length_append, List.length_singleton, unfinished_append]
      show ss.length + 1 ≤ _ + (w.answered + 1)
      omega

theorem starts (h : Attends places durations s ss w started queued answers) :
    ∃ (w' : Worker) (ss' : List Span), w'.completed = w.completed ∧ w'.answered = w.answered
      ∧ Attends places durations (started.foldl (fun s task => s.start first task) s) ss' w' []
          queued answers := by
  induction started generalizing s ss w with
  | nil => exact ⟨w, ss, rfl, rfl, h⟩
  | cons task started ih =>
    obtain ⟨w', ss', hcompleted, hanswered, hattends⟩ := ih h.start
    exact ⟨w', ss', hcompleted, hanswered, hattends⟩

/-- All tasks that have completed are answered to. -/
theorem answerAll {n : Nat} (h : Attends places durations s ss w [] queued answers)
    (hn : w.answered + n = w.completed) :
    ∃ (queued' : List Script) (answers' : List (List Observation)) (s' : Scheduler) (w' : Worker)
      (ss' : List Span), answer first n queued answers s = (queued', answers', s')
        ∧ (answers' = [] ∨ w'.answered = w'.completed)
        ∧ Attends places durations s' ss' w' [] queued' answers' := by
  induction n generalizing s ss w queued answers with
  | zero => exact ⟨queued, answers, s, w, ss, rfl, .inr hn, h⟩
  | succ n ih =>
    cases answers with
    | nil => exact ⟨queued, [], s, w, ss, rfl, .inl rfl, h⟩
    | cons answer answers =>
      cases queued with
      | nil =>
        obtain ⟨queued', answers', s', w', ss', heq, hdone, hattends⟩ :=
          ih (h.answer_nil (by omega)) (by simp only; omega)
        exact ⟨queued', answers', s', w', ss', heq, hdone, hattends⟩
      | cons task queued =>
        cases answers with
        | nil =>
          have := h.carries.sound.1.queued_eq_zero (Nat.le_refl _)
          simp at this
        | cons next answers =>
          obtain ⟨queued', answers', s', w', ss', heq, hdone, hattends⟩ :=
            ih (h.answer_start (by omega)) (by simp only; omega)
          exact ⟨queued', answers', s', w', ss', heq, hdone, hattends⟩

end Attends

/-! ### Between two steps -/

/-- All work is done, and the first worker came to its end with the last of its tasks. -/
structure Over (places : Nat) (durations : List Nat) (s : Scheduler) (ss : List Span) : Prop where
  kept : Kept places durations s ss
  length_eq : ss.length = durations.length
  ended : ∀ (i : Nat) (w : Worker), s.workers[i]? = some w → w.standing = .ended
  reported : (Timeline.finish ss, Report.ended) ∈ s.reports

/-- Between two steps the first worker is in its join, called unless all that has completed is
answered to, or all work is done. -/
inductive OnTime (places : Nat) (durations : List Nat) (s : Scheduler) (ss : List Span) : Prop where
  | waits {w : Worker} {started queued : List Script} {answers : List (List Observation)}
      (hw : s.workers[first]? = some w) (hscript : w.script = [.join started queued answers])
      (hstanding : w.standing = .called
        ∨ w.standing = .busy ∧ started = [] ∧ w.answered = w.completed)
      (kept : Kept places durations s ss)
      (awaits : Awaits places durations s.time ss w started queued answers)
  | done (h : Over places durations s ss)

theorem getElem?_call (hw : s.workers[id]? = some w) (i : Nat) :
    (s.call id).workers[i]?
      = if id = i then some { w with standing := .called } else s.workers[i]? := by
  by_cases hcalled : w.standing = .called
  · rw [call_of_called hw hcalled]
    split
    next hi =>
      subst hi
      rw [hw]
      cases w
      simp only at hcalled
      rw [hcalled]
    next => rfl
  · have hworkers : (s.call id).workers
        = (s.change id fun w => { w with standing := .called }).workers := by
      rw [call_eq hw hcalled]
      split <;> rfl
    rw [hworkers, workers_change]
    split
    next hi =>
      subst hi
      rw [hw]
      rfl
    next => rfl

/-- Calling somebody changes workers and the queue only. -/
theorem call_frame (s : Scheduler) (id : Nat) :
    (s.call id).workers.size = s.workers.size ∧ (s.call id).time = s.time
      ∧ (s.call id).gaveWay = s.gaveWay ∧ (s.call id).waiting = s.waiting
      ∧ (s.call id).reports = s.reports := by
  unfold call
  split
  · split
    · exact ⟨rfl, rfl, rfl, rfl, rfl⟩
    · dsimp only
      split
      · exact ⟨Array.size_modify, rfl, rfl, rfl, rfl⟩
      · exact ⟨Array.size_modify, rfl, rfl, rfl, rfl⟩
  · exact ⟨rfl, rfl, rfl, rfl, rfl⟩

theorem Kept.call_first (h : Kept places durations s ss) (hw : s.workers[first]? = some w) :
    Kept places durations (s.call first) ss := by
  obtain ⟨hsize, htime, hgaveWay, hwaiting, hreports⟩ := call_frame s first
  refine h.frame hsize ?_ htime hgaveWay hwaiting ?_
  · intro i
    rw [getElem?_call hw, if_neg (by unfold first; omega)]
  · rw [hreports]
    exact fun _ => id

namespace Attends

/-- With the last answer all tasks are at their end, and the first worker comes to its own. -/
theorem done (h : Attends places durations s ss w [] queued []) :
    Over places durations (Scheduler.carryOut first [] (s.leaveJoin first)) ss := by
  have hroot := h.root
  obtain ⟨hjoins, hhired, _, _, hlength, hanswers, _, _⟩ := h.awaits
  rw [List.length_nil, Nat.add_zero] at hlength hanswers
  obtain ⟨hanswered, hcompleted⟩ := h.carries.answered_le
  -- There are as many answers as tasks, so nothing is in flight behind the last of them.
  have hflight : s.inFlight first 0 = 0 := by
    have hstarted := (h.carries.orderly.fits first w h.carries.worker).started
    rw [hjoins] at hstarted
    omega
  have htasks (i : Nat) (v : Worker) (hv : s.workers[i + 1]? = some v) : v.standing = .ended := by
    have hi : i < ss.length := by
      have := lt_size hv
      have := h.kept.size
      omega
    obtain ⟨u, hu, hpunctual⟩ := h.kept.tasks i _ (List.getElem?_eq_getElem hi)
    obtain rfl : u = v := Option.some.inj (hu.symm.trans hv)
    by_contra halive
    have hmem : Worker.inFlight first 0 u ∈ s.workers.toList.map (Worker.inFlight first 0) :=
      List.mem_map_of_mem (List.mem_of_getElem? (by rwa [Array.getElem?_toList]))
    have hle : Worker.inFlight first 0 u ≤ s.inFlight first 0 := List.le_sum_of_mem hmem
    rw [Worker.inFlight, if_pos ⟨hpunctual.employer, halive⟩] at hle
    omega
  have htime : s.time = Timeline.finish ss := by
    refine Nat.le_antisymm h.kept.time_le (finish_le_iff.mpr ?_)
    intro span hspan
    obtain ⟨i, hi⟩ := List.mem_iff_getElem?.mp hspan
    obtain ⟨v, hv, hpunctual⟩ := h.kept.tasks i span hi
    exact (hpunctual.ended (htasks i v hv)).1
  have hleft : (s.leaveJoin first).workers[first]? = some { w with
      joins := w.joins + 1, started := 0, completed := 0, answered := 0 } :=
    workers_change_self h.carries.worker _
  have hfarewell : farewell { w with
      joins := w.joins + 1, started := 0, completed := 0, answered := 0 } = .ended := by
    simp [farewell, hroot]
  have hfinish : Scheduler.carryOut first [] (s.leaveJoin first)
      = ((s.leaveJoin first).change first fun w => { w with standing := .ended }).report .ended := by
    rw [Scheduler.carryOut, finish_alone hleft (by simp [hroot]), hfarewell]
  rw [hfinish]
  have hkept : Kept places durations
      ((s.leaveJoin first).change first fun w => { w with standing := .ended }) ss :=
    (h.kept.change_first _).change_first _
  refine ⟨hkept.frame rfl (fun _ => rfl) rfl rfl rfl fun _ => List.mem_cons_of_mem _, by omega, ?_, ?_⟩
  · intro i v hv
    rcases workers_change_cases hleft hv with ⟨rfl, rfl⟩ | ⟨hi, hv⟩
    · rfl
    · obtain ⟨j, rfl⟩ := Nat.exists_eq_succ_of_ne_zero hi
      rcases workers_change_cases h.carries.worker hv with ⟨hi', _⟩ | ⟨_, hv⟩
      · exact absurd hi' hi
      · exact htasks j v hv
  · rw [← htime]
    exact List.mem_cons_self

theorem onTime (h : Attends places durations s ss w started queued answers) :
    ∃ ss', OnTime places durations
      (Scheduler.carryOut first [.join started queued answers] s) ss' := by
  have htally : s.tally first = (w.started, w.completed, w.answered) := by
    simp [tally, h.carries.worker]
  have hle := h.carries.answered_le
  obtain ⟨w₁, ss₁, hcompleted, hanswered, hstarts⟩ := h.starts
  obtain ⟨queued', answers', t, w', ss', heq, hdone, hattends⟩ :=
    hstarts.answerAll (n := w.completed - w.answered) (by omega)
  refine ⟨ss', ?_⟩
  cases answers' with
  | nil =>
    rw [carryOut_join_of_nil htally heq]
    exact .done hattends.done
  | cons next later =>
    have hanswered := hdone.resolve_left (List.cons_ne_nil _ _)
    have hbusy := (hattends.carries.orderly.fits first w' hattends.carries.worker).current rfl
    rw [carryOut_join_of_cons htally heq rfl]
    have hkept : Kept places durations (t.keep first [.join [] queued' (next :: later)]) ss' :=
      hattends.kept.change_first _
    have hkeeps : (t.keep first [.join [] queued' (next :: later)]).workers[first]?
        = some { w' with script := [.join [] queued' (next :: later)] } :=
      workers_change_self hattends.carries.worker _
    split
    next =>
      refine .waits ((getElem?_call hkeeps first).trans (if_pos rfl)) rfl (.inl rfl)
        (hkept.call_first hkeeps) ?_
      · rw [(call_frame _ _).2.1]
        exact hattends.awaits.congr rfl rfl rfl
    next =>
      exact .waits hkeeps rfl (.inr ⟨hbusy, rfl, hanswered⟩) hkept
        (hattends.awaits.congr rfl rfl rfl)

end Attends

/-! ### Steps -/

/-- The first worker goes on. -/
theorem OnTime.goOn_first (h : s.Orderly none s.resting) (hon : OnTime places durations s ss)
    (hw : s.workers[first]? = some w) (hcalled : w.standing = .called) (left : Nat)
    (ready : List Nat)
    (hother : ∀ i, i ≠ first →
      ({ s with places := left, ready } : Scheduler).queue.count i = s.queue.count i)
    (hfirst : ({ s with places := left, ready } : Scheduler).queue.count first = 0) :
    ∃ ss', OnTime places durations (({ s with places := left, ready } : Scheduler).goOn first) ss' := by
  have hwt : ({ s with places := left, ready } : Scheduler).workers[first]? = some w := hw
  have hcarries := h.takeUp (t := { s with places := left, ready }) hw hcalled rfl rfl rfl hother
    hfirst
  cases hon with
  | done hover => simp [hover.ended first w hw] at hcalled
  | @waits v started queued answers hv hscript _ hkept hawaits =>
    obtain rfl : v = w := Option.some.inj (hv.symm.trans hw)
    rw [goOn_eq hwt, hscript]
    rw [hscript] at hcarries
    have hframe : Kept places durations ({ s with places := left, ready } : Scheduler) ss :=
      hkept.frame rfl (fun _ => rfl) rfl rfl rfl fun _ => id
    exact Attends.onTime ⟨hcarries, hframe.change_first _, hawaits.congr rfl rfl rfl⟩

/-- A time is put in its place. -/
theorem insertWaiting_perm (time id : Nat) (waiting : List (Nat × Nat)) :
    (insertWaiting time id waiting).Perm ((time, id) :: waiting) := by
  induction waiting with
  | nil => exact List.Perm.refl _
  | cons e waiting ih =>
    rw [insertWaiting]
    split
    · exact List.Perm.refl _
    · exact (ih.cons e).trans (List.Perm.swap _ _ _)

theorem insertWaiting_pairwise (time id : Nat) {waiting : List (Nat × Nat)}
    (h : waiting.Pairwise fun e e' => e.1 ≤ e'.1) :
    (insertWaiting time id waiting).Pairwise fun e e' => e.1 ≤ e'.1 := by
  induction waiting with
  | nil => simp [insertWaiting]
  | cons e waiting ih =>
    obtain ⟨hle, htail⟩ := List.pairwise_cons.mp h
    rw [insertWaiting]
    split
    next hlt =>
      refine List.pairwise_cons.mpr ⟨?_, h⟩
      intro e' he'
      rcases List.mem_cons.mp he' with rfl | he'
      · exact hlt.le
      · exact hlt.le.trans (hle e' he')
    next hge =>
      refine List.pairwise_cons.mpr ⟨?_, ih htail⟩
      intro e' he'
      rcases List.mem_cons.mp ((insertWaiting_perm time id waiting).mem_iff.mp he') with rfl | he'
      · exact Nat.le_of_not_lt hge
      · exact hle e' he'

/-- One task changes, and keeps to its span. -/
theorem Kept.update (h : Kept places durations s ss) {span : Span} (hspan : ss[i]? = some span)
    (hw : s'.workers[i + 1]? = some w) (hpunctual : s'.Punctual i w span.finish)
    (hsize : s'.workers.size = s.workers.size)
    (hworkers : ∀ j, j ≠ i → s'.workers[j + 1]? = s.workers[j + 1]?) (htime : s'.time = s.time)
    (hgaveWay : s'.gaveWay = s.gaveWay)
    (hwaiting : ∀ j, j ≠ i → ∀ t, (t, j + 1) ∈ s'.waiting → (t, j + 1) ∈ s.waiting)
    (hascending : s'.waiting.Pairwise fun e e' => e.1 ≤ e'.1)
    (hlater : ∀ e ∈ s'.waiting, s'.time ≤ e.1) (hreports : ∀ r ∈ s.reports, r ∈ s'.reports) :
    Kept places durations s' ss := by
  refine ⟨hsize.trans h.size, ?_, h.timely, htime ▸ h.time_le, hgaveWay.trans h.gaveWay, hascending,
    hlater⟩
  intro j other hother
  by_cases hj : j = i
  · subst hj
    obtain rfl := Option.some.inj (hspan.symm.trans hother)
    exact ⟨w, hw, hpunctual⟩
  · obtain ⟨v, hv, hp⟩ := h.tasks j other hother
    exact ⟨v, (hworkers j hj).trans hv, hp.frame htime (hwaiting j hj) hreports⟩

/-- The state in which a task has begun to wait. -/
theorem carryOut_wait (ms : Nat) (later : Script) :
    carryOut id (.wait ms :: later) s
      = ({ s with waiting := insertWaiting (s.time + ms) id s.waiting } : Scheduler).change id
          fun w => { w with script := later, standing := .resting } := rfl

/-- A task that was called is taken up, and nothing else changes that times depend on. -/
structure TakesUp (s t : Scheduler) (i : Nat) (w : Worker) : Prop where
  worker : t.workers[i + 1]? = some { w with script := [], standing := .busy }
  others : ∀ j, j ≠ i + 1 → t.workers[j]? = s.workers[j]?
  size : t.workers.size = s.workers.size
  time : t.time = s.time
  gaveWay : t.gaveWay = s.gaveWay
  waiting : t.waiting = s.waiting
  reports : t.reports = s.reports
  /-- Whoever is called does not wait for a time. -/
  absent : ∀ time, (time, i + 1) ∉ s.waiting

theorem takesUp_of_called (h : s.Orderly none s.resting) (hw : s.workers[i + 1]? = some w)
    (hcalled : w.standing = .called) (left : Nat) (ready : List Nat) :
    TakesUp s (({ s with places := left, ready } : Scheduler).takeUp (i + 1)) i w := by
  refine ⟨workers_change_self (s := { s with places := left, ready }) hw _, ?_, Array.size_modify,
    rfl, rfl, rfl, rfl, ?_⟩
  · intro j hj
    rw [takeUp, workers_change, if_neg (Ne.symm hj)]
  · intro time hmem
    have hresting := (h.fits (i + 1) w hw).resting
    rw [if_neg (by simp [hcalled])] at hresting
    refine List.count_eq_zero.mp hresting (List.mem_append_right _ ?_)
    exact List.mem_map_of_mem (f := Prod.snd) hmem

section TakesUp

variable {t : Scheduler} {span : Span}

/-- A task comes to its end in time. -/
theorem Kept.end_task (hkept : Kept places durations s ss) (htakes : TakesUp s t i w)
    (hspan : ss[i]? = some span) (hpunctual : s.Punctual i w span.finish)
    (htime : s.time = span.finish) :
    Kept places durations ((t.change (i + 1) fun w => { w with standing := .ended }).report
      (.completed first i)) ss := by
  refine hkept.update hspan (workers_change_self htakes.worker _) ?_ ?_ ?_ htakes.time
    htakes.gaveWay ?_ ?_ ?_ ?_
  · refine ⟨hpunctual.employer, hpunctual.index, hpunctual.alone, by simp [Script.OnlyWaits],
      by simp, ?_, ?_⟩
    · intro time hmem
      exact absurd (htakes.waiting ▸ hmem) (htakes.absent time)
    · intro _
      rw [← htime, ← htakes.time]
      exact ⟨Nat.le_refl _, List.mem_cons_self⟩
  · exact Array.size_modify.trans htakes.size
  · intro j hj
    show (t.change (i + 1) _).workers[j + 1]? = _
    rw [workers_change, if_neg (by omega), htakes.others _ (by omega)]
  · intro j _ time hmem
    exact htakes.waiting ▸ hmem
  · exact htakes.waiting ▸ hkept.ascending
  · intro e he
    show t.time ≤ e.1
    rw [htakes.time]
    exact hkept.later e (htakes.waiting ▸ he)
  · intro r hr
    exact List.mem_cons_of_mem _ (htakes.reports ▸ hr)

/-- A task begins to wait. -/
theorem Kept.rest_task (hkept : Kept places durations s ss) (htakes : TakesUp s t i w)
    (hspan : ss[i]? = some span) (hpunctual : s.Punctual i w span.finish) {ms : Nat}
    {later : Script} (hwaits : later.OnlyWaits)
    (htime : s.time + (ms + later.waits) = span.finish) :
    Kept places durations
      (({ t with waiting := insertWaiting (t.time + ms) (i + 1) t.waiting } : Scheduler).change
        (i + 1) fun w => { w with script := later, standing := .resting }) ss := by
  have hcases {e : Nat × Nat} (he : e ∈ insertWaiting (t.time + ms) (i + 1) t.waiting) :
      e = (t.time + ms, i + 1) ∨ e ∈ s.waiting := by
    rw [← htakes.waiting]
    exact List.mem_cons.mp ((insertWaiting_perm _ _ _).mem_iff.mp he)
  refine hkept.update hspan (workers_change_self htakes.worker _) ?_ ?_ ?_ htakes.time
    htakes.gaveWay ?_ ?_ ?_ ?_
  · refine ⟨hpunctual.employer, hpunctual.index, hpunctual.alone, hwaits, by simp, ?_, by simp⟩
    intro time hmem
    rcases hcases hmem with heq | hmem
    · obtain ⟨rfl, -⟩ := Prod.mk.inj heq
      show t.time + ms + later.waits = _
      rw [htakes.time, Nat.add_assoc, htime]
    · exact absurd hmem (htakes.absent time)
  · exact Array.size_modify.trans htakes.size
  · intro j hj
    rw [workers_change, if_neg (by omega)]
    exact htakes.others _ (by omega)
  · intro j hj time hmem
    rcases hcases hmem with heq | hmem
    · have := (Prod.mk.inj heq).2
      omega
    · exact hmem
  · exact insertWaiting_pairwise _ _ (htakes.waiting ▸ hkept.ascending)
  · intro e he
    show t.time ≤ e.1
    rcases hcases he with rfl | he
    · exact Nat.le_add_right _ _
    · rw [htakes.time]
      exact hkept.later e he
  · exact fun r hr => htakes.reports ▸ hr

end TakesUp

/-- A task goes on: it waits, or comes to its end in time. -/
theorem OnTime.goOn_task (h : s.Orderly none s.resting) (hon : OnTime places durations s ss)
    (hw : s.workers[i + 1]? = some w) (hcalled : w.standing = .called) (left : Nat)
    (ready : List Nat) :
    OnTime places durations (({ s with places := left, ready } : Scheduler).goOn (i + 1)) ss := by
  have hwt : ({ s with places := left, ready } : Scheduler).workers[i + 1]? = some w := hw
  have htakes := takesUp_of_called h hw hcalled left ready
  rw [goOn_eq hwt]
  generalize ({ s with places := left, ready } : Scheduler).takeUp (i + 1) = t at htakes ⊢
  cases hon with
  | done hover => simp [hover.ended _ w hw] at hcalled
  | @waits v started queued answers hv hscript hstanding hkept hawaits =>
    have hne : first ≠ i + 1 := by unfold first; omega
    have hi : i < ss.length := by
      have := lt_size hw
      have := hkept.size
      omega
    have hspan := List.getElem?_eq_getElem hi
    obtain ⟨u, hu, hpunctual⟩ := hkept.tasks i _ hspan
    obtain rfl : u = w := Option.some.inj (hu.symm.trans hw)
    have hactive := hpunctual.active (.inl hcalled)
    have hvt : t.workers[first]? = some v := (htakes.others first hne).trans hv
    rw [← htakes.time] at hawaits
    rcases hpunctual.onlyWaits.cases with hnil | ⟨ms, later, hcons, honly⟩
    · rw [hnil] at hactive ⊢
      have hfarewell : farewell { u with script := [], standing := .busy } = .completed first i := by
        simp [farewell, hpunctual.employer, hpunctual.index]
      have hended := hkept.end_task htakes hspan hpunctual hactive
      have hcounted : (((t.change (i + 1) fun w => { w with standing := .ended }).report
          (.completed first i)).change first
            fun v => { v with completed := v.completed + 1 }).workers[first]?
              = some { v with completed := v.completed + 1 } := by
        refine workers_change_self ?_ _
        show (t.change (i + 1) _).workers[first]? = _
        rw [workers_change, if_neg (Ne.symm hne), hvt]
      show OnTime places durations (t.finish (i + 1)) ss
      rw [finish_counted htakes.worker hne hvt (by rw [hawaits.joins]; exact hpunctual.employer),
        hfarewell]
      refine .waits ((getElem?_call hcounted first).trans (if_pos rfl)) hscript (.inl rfl)
        ((hended.change_first _).call_first hcounted) ?_
      rw [(call_frame _ _).2.1]
      exact hawaits.congr rfl rfl rfl
    · rw [hcons] at hactive ⊢
      rw [carryOut_wait]
      refine .waits (w := v) ?_ hscript hstanding
        (hkept.rest_task htakes hspan hpunctual honly hactive) hawaits
      rw [workers_change, if_neg (Ne.symm hne)]
      exact hvt

/-- Those who are called are called, and nobody else changes. -/
theorem getElem?_foldl_call (hw : s.workers[i]? = some w) (ids : List Nat) :
    (ids.foldl call s).workers[i]?
      = some (if i ∈ ids then { w with standing := .called } else w) := by
  induction ids generalizing s w with
  | nil => simpa using hw
  | cons id ids ih =>
    rw [List.foldl_cons]
    by_cases hi : id = i
    · subst hi
      have hcalled : (s.call id).workers[id]? = some { w with standing := .called } :=
        (getElem?_call hw id).trans (if_pos rfl)
      rw [ih hcalled, if_pos List.mem_cons_self]
      split <;> rfl
    · have hsame : (s.call id).workers[i]? = some w := by
        cases hid : s.workers[id]? with
        | none =>
          have hcall : s.call id = s := by simp [call, hid]
          rw [hcall, hw]
        | some v => rw [getElem?_call hid, if_neg hi, hw]
      rw [ih hsame]
      simp [Ne.symm hi]

theorem foldl_call_frame (ids : List Nat) (s : Scheduler) :
    (ids.foldl call s).workers.size = s.workers.size ∧ (ids.foldl call s).time = s.time
      ∧ (ids.foldl call s).gaveWay = s.gaveWay ∧ (ids.foldl call s).waiting = s.waiting
      ∧ (ids.foldl call s).reports = s.reports := by
  induction ids generalizing s with
  | nil => exact ⟨rfl, rfl, rfl, rfl, rfl⟩
  | cons id ids ih =>
    obtain ⟨hsize, htime, hgaveWay, hwaiting, hreports⟩ := call_frame s id
    obtain ⟨hsize', htime', hgaveWay', hwaiting', hreports'⟩ := ih (s.call id)
    exact ⟨hsize'.trans hsize, htime'.trans htime, hgaveWay'.trans hgaveWay,
      hwaiting'.trans hwaiting, hreports'.trans hreports⟩

/-- Whoever waits for a time is at rest. -/
theorem Orderly.resting_of_waiting (h : s.Orderly none s.resting) {time : Nat}
    (hmem : (time, id) ∈ s.waiting) :
    ∃ w, s.workers[id]? = some w ∧ w.standing = .resting := by
  have hresting : id ∈ s.resting :=
    List.mem_append_right _ (List.mem_map_of_mem (f := Prod.snd) hmem)
  have hw := Array.getElem?_eq_getElem (h.known id (List.mem_append_right _ hresting))
  refine ⟨_, hw, ?_⟩
  by_contra hnot
  have hcount := (h.fits id _ hw).resting
  rw [if_neg hnot] at hcount
  exact List.count_eq_zero.mp hcount hresting

/-- When nobody stands in the queue, a task that is not at its end waits for a time. -/
theorem Kept.waits (h : s.Orderly none s.resting) (hkept : Kept places durations s ss)
    (hqueue : s.queue = []) (hw : s.workers[i + 1]? = some w) {finish : Nat}
    (hpunctual : s.Punctual i w finish) (halive : w.standing ≠ .ended) :
    w.standing = .resting ∧ ∃ time, (time, i + 1) ∈ s.waiting := by
  obtain ⟨hqueued, hresting, _, hstarted, _, hbusy, _⟩ := h.fits (i + 1) w hw
  have hstands : w.standing = .resting := by
    cases hs : w.standing with
    | busy =>
      have := hbusy (by simp) hs
      have := hpunctual.alone
      omega
    | resting => rfl
    | called =>
      rw [hqueue, hs] at hqueued
      simp [isForeground, first] at hqueued
    | ended => exact absurd hs halive
  refine ⟨hstands, ?_⟩
  rw [if_pos hstands, resting, hkept.gaveWay, List.nil_append] at hresting
  have hmem : i + 1 ∈ s.waiting.map Prod.snd := List.count_pos_iff.mp (by omega)
  obtain ⟨⟨time, _⟩, he, rfl⟩ := List.mem_map.mp hmem
  exact ⟨time, he⟩

/-- A time passes to when nobody stands in the queue: somebody waits for it, and nobody for an
earlier one. -/
structure Next (s : Scheduler) (time : Nat) : Prop where
  queue : s.queue = []
  least : ∀ e ∈ s.waiting, time ≤ e.1
  reached : ∃ id, (time, id) ∈ s.waiting

theorem next_of_cons (hqueue : s.queue = [])
    (hascending : s.waiting.Pairwise fun e e' => e.1 ≤ e'.1) {time : Nat} {rest : List (Nat × Nat)}
    (hwaiting : s.waiting = (time, id) :: rest) : s.Next time := by
  refine ⟨hqueue, ?_, id, ?_⟩
  · intro e he
    rw [hwaiting] at he hascending
    rcases List.mem_cons.mp he with rfl | he
    · exact Nat.le_refl _
    · exact List.rel_of_pairwise_cons hascending he
  · rw [hwaiting]
    exact List.mem_cons_self

/-- The state at a later time, with those called who wait for it. -/
def passTo (s : Scheduler) (time : Nat) (due : List (Nat × Nat)) : Scheduler :=
  (due.map Prod.snd).foldl call { s with time, waiting := s.waiting.drop due.length }

section PassTo

variable {time : Nat} {due : List (Nat × Nat)}

theorem passTo_frame (s : Scheduler) (time : Nat) (due : List (Nat × Nat)) :
    (s.passTo time due).workers.size = s.workers.size ∧ (s.passTo time due).time = time
      ∧ (s.passTo time due).gaveWay = s.gaveWay
      ∧ (s.passTo time due).waiting = s.waiting.drop due.length
      ∧ (s.passTo time due).reports = s.reports :=
  foldl_call_frame (due.map Prod.snd) { s with time, waiting := s.waiting.drop due.length }

theorem mem_waiting_of_passTo {e : Nat × Nat} (h : e ∈ (s.passTo time due).waiting) :
    e ∈ s.waiting := by
  rw [(passTo_frame s time due).2.2.2.1] at h
  exact List.mem_of_mem_drop h

theorem getElem?_passTo (hw : s.workers[i]? = some w) (time : Nat) (due : List (Nat × Nat)) :
    (s.passTo time due).workers[i]?
      = some (if i ∈ due.map Prod.snd then { w with standing := .called } else w) :=
  getElem?_foldl_call (s := { s with time, waiting := s.waiting.drop due.length }) hw _

/-- A task that waits for the time is called, the others stay as they are. -/
theorem Punctual.passTo {finish : Nat} (hpunctual : s.Punctual i w finish)
    (hdue : ∀ e ∈ due, e ∈ s.waiting ∧ e.1 = time) (hle : s.time ≤ time)
    (hrests : w.standing ≠ .ended → w.standing = .resting) :
    (s.passTo time due).Punctual i
      (if i + 1 ∈ due.map Prod.snd then { w with standing := .called } else w) finish := by
  obtain ⟨hemployer, hindex, halone, honly, _, hwaits, hended⟩ := hpunctual
  obtain ⟨_, htime, _, _, hreports⟩ := passTo_frame s time due
  have hwaits' (t : Nat) (ht : (t, i + 1) ∈ (s.passTo time due).waiting) :
      t + w.script.waits = finish := hwaits t (mem_waiting_of_passTo ht)
  split
  next hmem =>
    obtain ⟨⟨t, j⟩, he, hj⟩ := List.mem_map.mp hmem
    obtain rfl : j = i + 1 := hj
    obtain ⟨hin, rfl⟩ := hdue _ he
    refine ⟨hemployer, hindex, halone, honly, ?_, hwaits', by simp⟩
    intro _
    rw [htime]
    exact hwaits t hin
  next hmem =>
    refine ⟨hemployer, hindex, halone, honly, ?_, hwaits', ?_⟩
    · -- Nobody is at work.
      intro hworks
      have hresting := hrests (by rcases hworks with h | h <;> simp [h])
      rcases hworks with h | h <;> simp [h] at hresting
    · intro hends
      obtain ⟨hfinish, hreport⟩ := hended hends
      rw [htime, hreports]
      exact ⟨Nat.le_trans hfinish hle, hreport⟩

/-- Nobody waits longer than up to the last end. -/
theorem Kept.le_finish (h : s.Orderly none s.resting) (hkept : Kept places durations s ss)
    (hid : (time, id) ∈ s.waiting)
    (hfirst : ∀ w : Worker, s.workers[first]? = some w → w.standing ≠ .resting) :
    time ≤ Timeline.finish ss := by
  obtain ⟨w, hw, hresting⟩ := h.resting_of_waiting hid
  obtain ⟨i, rfl⟩ : ∃ i, id = i + 1 := by
    refine Nat.exists_eq_succ_of_ne_zero ?_
    rintro rfl
    exact hfirst w hw hresting
  have hi : i < ss.length := by
    have := lt_size hw
    have := hkept.size
    omega
  obtain ⟨v, _, hpunctual⟩ := hkept.tasks i _ (List.getElem?_eq_getElem hi)
  have hends := hpunctual.waiting time hid
  have hlast := Timeline.le_finish (List.getElem_mem hi)
  omega

/-- Tasks that wait keep to their spans while time passes. -/
theorem Kept.passTo (h : s.Orderly none s.resting) (hkept : Kept places durations s ss)
    (hnext : s.Next time) (hdue : ∀ e ∈ due, e ∈ s.waiting ∧ e.1 = time)
    (hfirst : ∀ w : Worker, s.workers[first]? = some w → w.standing ≠ .resting) :
    Kept places durations (s.passTo time due) ss := by
  obtain ⟨hsize, htime, hgaveWay, hwaiting, _⟩ := passTo_frame s time due
  obtain ⟨id, hid⟩ := hnext.reached
  refine ⟨hsize.trans hkept.size, ?_, hkept.timely, ?_, hgaveWay.trans hkept.gaveWay, ?_, ?_⟩
  · intro i span hspan
    obtain ⟨w, hw, hpunctual⟩ := hkept.tasks i span hspan
    refine ⟨_, getElem?_passTo hw time due, hpunctual.passTo hdue (hkept.later _ hid) ?_⟩
    exact fun halive => (hkept.waits h hnext.queue hw hpunctual halive).1
  · rw [htime]
    exact hkept.le_finish h hid hfirst
  · rw [hwaiting]
    exact hkept.ascending.sublist (List.drop_sublist _ _)
  · intro e he
    rw [htime]
    exact hnext.least e (mem_waiting_of_passTo he)

/-- Up to the next time the tasks in flight are not at their end. -/
theorem Kept.inFlight_le_of_next (h : s.Orderly none s.resting)
    (hkept : Kept places durations s ss) (hnext : s.Next time) (hw : s.workers[first]? = some w)
    {t : Nat} (ht : t < time) : s.inFlight first 0 ≤ unfinished ss t := by
  refine hkept.inFlight_le hw ((h.descends.root first w hw).mpr rfl) ?_
  intro i span v _ hv hpunctual halive
  obtain ⟨_, t', ht'⟩ := hkept.waits h hnext.queue hv hpunctual halive
  have hends := hpunctual.waiting t' ht'
  have hlate := hnext.least _ ht'
  simp only at hlate
  omega

end PassTo

/-- When nobody stands in the queue, only the foreground can be called. -/
theorem standing_first_ne_called (h : s.Orderly none s.resting) (hqueue : s.queue = [])
    (hforeground : s.foregroundCalled = false) (hw : s.workers[first]? = some w) :
    w.standing ≠ .called := by
  intro hcalled
  have hqueued := (h.fits first w hw).queued
  rw [hqueue] at hqueued
  cases hrunner : s.isForeground first with
  | false => simp [hrunner, hcalled] at hqueued
  | true =>
    simp only [isForeground, decide_true, Bool.true_and, decide_eq_true_eq] at hrunner
    simp [foregroundCalled, hrunner, hw, Worker.isCalled, hcalled] at hforeground

/-- Time passes when nobody can go on, up to the next end of a wait. -/
theorem OnTime.callDue (h : s.Orderly none s.resting) (hon : OnTime places durations s ss)
    (hqueue : s.queue = []) (hforeground : s.foregroundCalled = false) :
    OnTime places durations s.callDue ss := by
  unfold Scheduler.callDue
  split
  next => exact hon
  next time id rest hwaiting =>
    show OnTime places durations (s.passTo time (s.waiting.takeWhile (·.1 = time))) ss
    have hdue (e : Nat × Nat) (he : e ∈ s.waiting.takeWhile (·.1 = time)) :
        e ∈ s.waiting ∧ e.1 = time :=
      ⟨(List.takeWhile_sublist _).mem he, by simpa using List.mem_takeWhile_imp he⟩
    generalize s.waiting.takeWhile (·.1 = time) = due at hdue ⊢
    cases hon with
    | done hover =>
      have hhead : (time, id) ∈ s.waiting := by
        rw [hwaiting]
        exact List.mem_cons_self
      obtain ⟨w, hw, hresting⟩ := h.resting_of_waiting hhead
      simp [hover.ended id w hw] at hresting
    | @waits v started queued answers hv hscript hstanding hkept hawaits =>
      -- The first worker is not called, so it has answered to all that has completed.
      obtain ⟨hbusy, rfl, hanswered⟩ :=
        hstanding.resolve_left (standing_first_ne_called h hqueue hforeground hv)
      have hnext := next_of_cons hqueue hkept.ascending hwaiting
      have hrests (w : Worker) (hw : s.workers[first]? = some w) : w.standing ≠ .resting := by
        rw [← Option.some.inj (hv.symm.trans hw), hbusy]
        simp
      have hfirst : first ∉ due.map Prod.snd := by
        intro hmem
        obtain ⟨⟨t, j⟩, he, hj⟩ := List.mem_map.mp hmem
        obtain rfl : j = first := hj
        obtain ⟨w, hw, hresting⟩ := h.resting_of_waiting (hdue _ he).1
        exact hrests w hw hresting
      have hget := getElem?_passTo hv time due
      rw [if_neg hfirst] at hget
      refine .waits hget hscript (.inr ⟨hbusy, rfl, hanswered⟩)
        (hkept.passTo h hnext hdue hrests) ?_
      obtain ⟨hjoins, hhired, hwaits, hdurations, hlength, hanswers, _, _⟩ := hawaits
      refine ⟨hjoins, hhired, hwaits, hdurations, hlength, hanswers, fun hne => absurd rfl hne, ?_⟩
      intro t ht
      rw [(passTo_frame s time due).2.1] at ht
      have hstarted := (h.fits first v hv).started
      have hflight := hkept.inFlight_le_of_next h hnext hv ht
      rw [hjoins] at hstarted
      omega

/-! ### All steps -/

theorem OnTime.gaveWay (h : OnTime places durations s ss) : s.gaveWay = [] := by
  cases h with
  | waits _ _ _ hkept _ => exact hkept.gaveWay
  | done hover => exact hover.kept.gaveWay

/-- The queue plays no part. -/
theorem OnTime.frame (h : OnTime places durations s ss) (hworkers : s'.workers = s.workers)
    (htime : s'.time = s.time) (hgaveWay : s'.gaveWay = s.gaveWay)
    (hwaiting : s'.waiting = s.waiting) (hreports : s'.reports = s.reports) :
    OnTime places durations s' ss := by
  have hframe (hkept : Kept places durations s ss) : Kept places durations s' ss := by
    refine hkept.frame (by rw [hworkers]) (fun i => by rw [hworkers]) htime hgaveWay hwaiting ?_
    rw [hreports]
    exact fun _ => id
  cases h with
  | waits hw hscript hstanding hkept hawaits =>
    refine .waits (by rw [hworkers, hw]) hscript hstanding (hframe hkept) ?_
    rw [htime]
    exact hawaits
  | done hover =>
    obtain ⟨hkept, hlength, hended, hreported⟩ := hover
    exact .done ⟨hframe hkept, hlength, by rw [hworkers]; exact hended, by rw [hreports]; exact hreported⟩

theorem OnTime.nextTurn (h : s.Orderly none s.resting) (hon : OnTime places durations s ss) :
    OnTime places durations s.nextTurn ss := by
  have hgather : OnTime places durations s.gather ss := hon.frame rfl rfl rfl rfl rfl
  suffices hnext : OnTime places durations s.gather.callNext ss from
    hnext.frame rfl rfl rfl rfl rfl
  unfold Scheduler.callNext
  split
  next hnobody =>
    simp only [Bool.and_eq_true, List.isEmpty_iff, Bool.not_eq_true'] at hnobody
    refine hgather.callDue h.gather.orderly ?_ hnobody.2
    rw [queue, hnobody.1.2]
    rfl
  next =>
    rw [hgather.gaveWay]
    exact hgather.frame rfl rfl hgather.gaveWay.symm rfl rfl

theorem OnTime.beginTurn (h : s.Orderly none s.resting) (hon : OnTime places durations s ss)
    (hturn : s.places = 0 ∨ s.ready = [] ∧ s.called = []) :
    ∃ ss', OnTime places durations s.beginTurn ss' := by
  have hnext := hon.nextTurn h
  have horderly := (h.beginTurn hturn).1.orderly
  rw [beginTurn_eq]
  split
  next hforeground =>
    obtain ⟨w, hw, hcalled, hqueued⟩ := horderly.foreground hforeground
    exact hnext.goOn_first horderly hw hcalled s.nextTurn.places s.nextTurn.ready (fun _ _ => rfl)
      hqueued
  next => exact ⟨ss, hnext⟩

/-- However far scripts are carried out, tasks keep to their spans. -/
theorem OnTime.run (n : Nat) (h : s.Orderly none s.resting) (hon : OnTime places durations s ss) :
    ∃ ss', OnTime places durations (Scheduler.run n s) ss' := by
  induction n generalizing s ss with
  | zero => exact ⟨ss, hon⟩
  | succ n ih =>
    have hnewTurn (hover : s.places = 0 ∨ s.ready = [] ∧ s.called = []) :
        ∃ ss', OnTime places durations
          (if s.beginTurn.isIdle then s.beginTurn else Scheduler.run n s.beginTurn) ss' := by
      obtain ⟨ss', hbegun⟩ := hon.beginTurn h hover
      split
      next => exact ⟨ss', hbegun⟩
      next =>
        rcases (h.beginTurn hover).2 with hstep | ⟨hstep, _⟩
        · exact ih hstep.orderly hbegun
        · exact ih hstep.orderly hbegun
    cases hplaces : s.places with
    | zero =>
      simp only [Scheduler.run, hplaces]
      exact hnewTurn (.inl hplaces)
    | succ left =>
      cases hready : s.ready with
      | cons id ready =>
        obtain ⟨w, hw, hcalled, hother, hid⟩ := h.front left hready
        have horderly := (h.goOn_ready left hready).orderly
        simp only [Scheduler.run, hplaces, hready]
        cases id with
        | zero =>
          obtain ⟨ss', hgone⟩ := hon.goOn_first h hw hcalled left ready hother hid
          exact ih horderly hgone
        | succ i => exact ih horderly (hon.goOn_task h hw hcalled left ready)
      | nil =>
        cases hcalled : s.called with
        | cons id ids =>
          simp only [Scheduler.run, hplaces, hready, hcalled]
          exact ih h.gather.orderly (hon.frame rfl rfl rfl rfl rfl)
        | nil =>
          simp only [Scheduler.run, hplaces, hready, hcalled]
          exact hnewTurn (.inr ⟨hready, hcalled⟩)

end Scheduler

/-! ### Whole joins -/

namespace Script

open Scheduler

variable {places : Nat} {scripts : List Script} {answers : List (List Observation)}

theorem sound_join (hplaces : 0 < places) (hwaits : ∀ script ∈ scripts, script.OnlyWaits)
    (hanswers : answers.length = scripts.length) :
    Script.Sound [.join (scripts.take places) (scripts.drop places) answers] := by
  refine ⟨⟨⟨?_, ?_, ?_⟩, ?_, ?_⟩, trivial⟩
  · rw [List.length_take, List.length_drop]
    omega
  · rw [List.length_take]
    omega
  · rw [List.length_drop]
    omega
  · exact allSound_iff.mpr fun script h => (hwaits script (List.mem_of_mem_take h)).sound
  · exact allSound_iff.mpr fun script h => (hwaits script (List.mem_of_mem_drop h)).sound

/-- Before the first step no task is started. -/
theorem onTime_called (runner : Runner) (hwaits : ∀ script ∈ scripts, script.OnlyWaits)
    (hanswers : answers.length = scripts.length) :
    OnTime places (scripts.map waits)
      ((beginning runner
        [.join (scripts.take places) (scripts.drop places) answers]).call first) [] := by
  generalize hscript : [Act.join (scripts.take places) (scripts.drop places) answers] = script
  have hworker : (beginning runner script).workers[first]?
      = some ⟨script, none, 0, 0, 0, 0, 0, .busy⟩ := rfl
  obtain ⟨hsize, htime, hgaveWay, hwaiting, _⟩ := call_frame (beginning runner script) first
  refine .waits ((getElem?_call hworker first).trans (if_pos rfl)) hscript.symm (.inl rfl) ?_ ?_
  · refine ⟨hsize, by simp, .nil places, ?_, hgaveWay, ?_, ?_⟩
    · rw [htime]
      exact Nat.zero_le _
    · rw [hwaiting]
      exact List.Pairwise.nil
    · rw [hwaiting]
      exact fun e he => absurd he (by simp [beginning])
  · rw [htime]
    refine ⟨rfl, rfl, ?_, ?_, ?_, ?_, fun _ => ⟨rfl, rfl⟩, ?_⟩
    · rw [List.take_append_drop]
      exact hwaits
    · rw [List.take_append_drop]
      rfl
    · simp [Nat.min_comm]
    · simpa using hanswers
    · intro t ht
      exact absurd ht (Nat.not_lt_zero t)

/-- Tasks that only wait complete at the ends of their spans, and the join is over with the last
of them. -/
theorem play_join (runner : Runner) (hplaces : 0 < places)
    (hwaits : ∀ script ∈ scripts, script.OnlyWaits) (hanswers : answers.length = scripts.length) :
    let script : Script := [.join (scripts.take places) (scripts.drop places) answers]
    let ss := Timeline.spans places (scripts.map waits)
    (∀ (i : Nat) (span : Span), ss[i]? = some span →
        (span.finish, Report.completed first i) ∈ play runner script)
      ∧ (Timeline.finish ss, Report.ended) ∈ play runner script := by
  intro script ss
  obtain ⟨horderly, hbound⟩ := orderly_called runner (sound_join hplaces hwaits hanswers)
  obtain ⟨hidle, hproceeds⟩ := horderly.run hbound
  obtain ⟨ss', hon⟩ := OnTime.run (9 * Script.size script) horderly
    (onTime_called runner hwaits hanswers)
  have hended (i : Nat) (w : Worker) (hw : (Scheduler.run (9 * Script.size script)
      ((beginning runner script).call first)).workers[i]? = some w) : w.standing = .ended :=
    hproceeds.orderly.all_ended hidle hw
  cases hon with
  | waits hw _ hstanding _ _ =>
    -- Nobody is left behind in a join when there is nothing to do any more.
    have hstands := hended first _ hw
    rcases hstanding with h | ⟨h, _⟩ <;> simp [h] at hstands
  | done hover =>
    obtain ⟨hkept, hlength, _, hreported⟩ := hover
    have htimely := hkept.timely
    rw [hlength, List.take_length] at htimely
    -- The spans that came about follow the law, and the law leaves no choice.
    obtain rfl : ss' = ss := htimely.unique (timely_spans hplaces _)
    constructor
    · intro i span hspan
      obtain ⟨w, hw, hpunctual⟩ := hkept.tasks i span hspan
      exact List.mem_reverse.mpr (hpunctual.ended (hended _ w hw)).2
    · exact List.mem_reverse.mpr hreported

end Script

end DocTemplate
