/-
A worker goes on as far as it can.

A worker goes along its script until it gives way, waits or ends.  On its way it makes
things known, starts the tasks of a join and answers to those that have completed;
each of these is a step from one place in the script to another (`Scheduler.Leads`),
and keeps the invariant and both accounts.

* `Scheduler.Carries.starts` — the tasks with which a join begins;
* `Scheduler.Carries.answerAll` — the answers to the tasks that have completed;
* `Scheduler.carried_carryOut` — a whole stretch of a script.
-/
import DocTemplate.Proofs.Ledger

namespace DocTemplate

/-! ### Carrying out a script -/

namespace Scheduler

variable {s s' : Scheduler} {id : Nat} {w w' : Worker} {script script' : Script}

/-- A worker is at work on a script. -/
structure Carries (s : Scheduler) (id : Nat) (w : Worker) (script : Script) : Prop where
  orderly : s.Orderly (some id) s.resting
  worker : s.workers[id]? = some w
  cleared : w.script = []
  sound : script.SoundWith (w.started - w.answered)

/-- A worker comes from one place in its script to another; starting tasks counts for
something, since the worker may be called for them. -/
structure Leads (s : Scheduler) (id : Nat) (w : Worker) (script : Script) (s' : Scheduler)
    (w' : Worker) (script' : Script) : Prop where
  carries : s'.Carries id w' script'
  employer : w'.employer? = w.employer?
  started : w.started ≤ w'.started
  bound : s'.bound + script'.cost + 3 * w'.started ≤ s.bound + script.cost + 3 * w.started
  worth : ∀ μ, OnlyFirst μ → s'.worth μ + script'.worth μ w.employer?.isNone w'.started
    = s.worth μ + script.worth μ w.employer?.isNone w.started

/-- A worker has gone on as far as it can. -/
structure Carried (s : Scheduler) (w : Worker) (script : Script) (s' : Scheduler) : Prop where
  orderly : s'.Orderly none s'.resting
  bound : s'.bound ≤ s.bound + script.cost
  worth : ∀ μ, OnlyFirst μ → s'.worth μ = s.worth μ + script.worth μ w.employer?.isNone w.started

theorem Leads.refl (h : s.Carries id w script) : Leads s id w script s w script :=
  ⟨h, rfl, Nat.le_refl _, Nat.le_refl _, fun _ _ => rfl⟩

theorem Leads.trans {s'' : Scheduler} {w'' : Worker} {script'' : Script}
    (h : Leads s id w script s' w' script') (h' : Leads s' id w' script' s'' w'' script'') :
    Leads s id w script s'' w'' script'' := by
  refine ⟨h'.carries, h'.employer.trans h.employer, Nat.le_trans h.started h'.started,
    Nat.le_trans h'.bound h.bound, fun μ hμ => ?_⟩
  have hworth := h'.worth μ hμ
  rw [h.employer] at hworth
  rw [hworth, h.worth μ hμ]

namespace Carries

theorem answered_le (h : s.Carries id w script) :
    w.answered ≤ w.completed ∧ w.completed ≤ w.started := by
  obtain ⟨_, _, hanswered, hstarted, _⟩ := h.orderly.fits id w h.worker
  omega

/-- Before an act that is no join nothing is in flight. -/
theorem settled (h : s.Carries id w script) (hzero : w.started - w.answered = 0) :
    w.started = w.answered := by
  have := h.answered_le
  omega

theorem note {o : Observation} (h : s.Carries id w (.note o :: script)) :
    (s.report (.noted o)).Carries id w script := by
  obtain ⟨hzero, hsound⟩ := h.sound
  refine ⟨h.orderly.report _, h.worker, h.cleared, ?_⟩
  rw [hzero]
  exact Script.soundWith_zero.mpr hsound.2

theorem rest (h : s.Carries id w script) (hsettled : w.started = w.answered)
    {later : Script} (hlater : Script.Sound later)
    (hworkers : s'.workers
      = (s.change id fun w => { w with script := later, standing := .resting }).workers)
    (hrunner : s'.runner = s.runner) (hqueue : s'.queue = s.queue)
    (hresting : ∀ i, s'.resting.count i = s.resting.count i + if id = i then 1 else 0) :
    s'.Orderly none s'.resting := by
  obtain ⟨hqueued, hrest, hanswered, hstarted, _, _, _, _, hcurrent⟩ :=
    h.orderly.fits id w h.worker
  have hbusy := hcurrent rfl
  rw [if_neg (by simp [hbusy])] at hqueued hrest
  refine h.orderly.update h.worker (fun w => { w with script := later, standing := .resting })
    hworkers hrunner (fun i hi => ⟨by rw [hqueue], ?_, ?_⟩) rfl (Nat.le_refl _) (by simp [hbusy]) ?_
  · rw [hresting, if_neg (Ne.symm hi), Nat.add_zero]
  · simp [Ne.symm hi]
  · refine ⟨?_, ?_, hanswered, hstarted, ?_, ?_, fun _ => hsettled, ?_, ?_⟩
    · rw [hqueue, hqueued]
      simp
    · rw [hresting, hrest]
      simp
    · intro _
      show later.SoundWith (w.started - w.answered)
      rw [hsettled, Nat.sub_self]
      exact Script.soundWith_zero.mpr hlater
    · simp
    · simp
    · simp

end Carries

theorem count_insertWaiting (time id i : Nat) (ws : List (Nat × Nat)) :
    ((insertWaiting time id ws).map Prod.snd).count i
      = (ws.map Prod.snd).count i + if id = i then 1 else 0 := by
  induction ws with
  | nil => simp [insertWaiting, List.count_cons]
  | cons w ws ih =>
    obtain ⟨t, j⟩ := w
    rw [insertWaiting]
    split
    · simp [List.count_cons]
    · simp only [List.map_cons, List.count_cons, ih]
      omega

/-- A worker gives way, or waits for a time: it has to be called once more. -/
theorem Carries.carried_rest (h : s.Carries id w script) (hsettled : w.started = w.answered)
    {later : Script} (hlater : Script.Sound later) (hcost : later.cost + 4 ≤ script.cost)
    (hworth : ∀ μ, later.worth μ w.employer?.isNone w.started
      = script.worth μ w.employer?.isNone w.started)
    {t : Scheduler} (hbound : t.bound = s.bound) (hsame : ∀ μ, t.worth μ = s.worth μ)
    (hworkers : t.workers = s.workers) (hrunner : t.runner = s.runner)
    (hqueue : t.queue = s.queue)
    (hresting : ∀ i, t.resting.count i = s.resting.count i + if id = i then 1 else 0) :
    Carried s w script (t.change id fun w => { w with script := later, standing := .resting }) := by
  have hbusy := (h.orderly.fits id w h.worker).current rfl
  have hw : t.workers[id]? = some w := by rw [hworkers, h.worker]
  refine ⟨h.rest hsettled hlater ?_ hrunner hqueue hresting, ?_, ?_⟩
  · unfold change
    rw [hworkers]
  · have hchange := bound_change hw fun w => { w with script := later, standing := .resting }
    have hweight : Worker.weight { w with script := later, standing := .resting }
        = w.weight + later.cost + 4 := by
      simp only [Worker.weight, Standing.weight, hbusy, h.cleared, Script.cost_nil]
      omega
    omega
  · intro μ _
    have hchange := worth_change μ hw fun w => { w with script := later, standing := .resting }
    have hafter : Worker.worth μ { w with script := later, standing := .resting }
        = w.worth μ + later.worth μ w.employer?.isNone w.started := by
      have hfarewell : farewell { w with script := later, standing := .resting } = farewell w := rfl
      simp only [Worker.worth, hbusy, h.cleared, Script.worth_nil, hfarewell, reduceCtorEq, if_false]
      omega
    have := hworth μ
    have := hsame μ
    omega

/-! ### Joins -/

theorem resting_call (s : Scheduler) (id : Nat) : (s.call id).resting = s.resting := by
  unfold call
  split
  · split
    · rfl
    · dsimp only
      split <;> rfl
  · rfl

theorem resting_finish (s : Scheduler) (id : Nat) : (s.finish id).resting = s.resting := by
  unfold finish
  split
  · dsimp only
    split
    · rfl
    · split
      · rw [resting_call]
        rfl
      · rfl
  · rfl

theorem resting_start (hw : s.workers[id]? = some w) (task : Script) :
    (s.start id task).resting = s.resting := by
  rw [start_eq hw]
  rfl

theorem workers_start_self (hw : s.workers[id]? = some w) (task : Script) :
    (s.start id task).workers[id]? = some { w with started := w.started + 1 } := by
  rw [start_eq hw]
  exact workers_change_self (workers_hire_of_lt _ hw) _

variable {started queued : List Script} {answers : List (List Observation)}

theorem Carries.start {task : Script}
    (h : s.Carries id w (.join (task :: started) queued answers :: script)) :
    Leads s id w (.join (task :: started) queued answers :: script) (s.start id task)
      { w with started := w.started + 1 } (.join started queued answers :: script) := by
  obtain ⟨hle, hle'⟩ := h.answered_le
  obtain ⟨hdeliverable, ⟨htask, hstarted⟩, hqueued, hscript⟩ := h.sound
  refine ⟨⟨?_, workers_start_self h.worker task, h.cleared, ?_, hstarted, hqueued, hscript⟩, rfl,
    Nat.le_succ _, ?_, fun μ hμ => ?_⟩
  · rw [resting_start h.worker]
    exact h.orderly.start h.worker htask
  · have hcount : w.started - w.answered + (task :: started).length
        = w.started + 1 - w.answered + started.length := by
      rw [List.length_cons]
      omega
    rw [← hcount]
    exact hdeliverable
  · have hbound := bound_start h.worker hle' task
    have hcost := Script.cost_join_start task started queued answers script
    simp only
    omega
  · have hroot := h.orderly.descends.root id w h.worker
    rw [worth_start hμ hroot h.worker h.cleared, Script.worth_join_start]
    simp only
    omega

theorem Carries.starts (h : s.Carries id w (.join started queued answers :: script)) :
    ∃ w' : Worker, w'.completed = w.completed ∧ w'.answered = w.answered
      ∧ Leads s id w (.join started queued answers :: script)
          (started.foldl (fun s task => s.start id task) s) w' (.join [] queued answers :: script) := by
  induction started generalizing s w with
  | nil => exact ⟨w, rfl, rfl, Leads.refl h⟩
  | cons task started ih =>
    have hstart := h.start
    obtain ⟨w', hcompleted, hanswered, hleads⟩ := ih hstart.carries
    exact ⟨w', hcompleted, hanswered, hstart.trans hleads⟩

/-- What is made known changes nothing else. -/
theorem foldl_report (os : List Observation) (s : Scheduler) :
    os.foldl (fun s o => s.report (.noted o)) s
      = { s with reports := (os.map fun o => (s.time, Report.noted o)).reverse ++ s.reports } := by
  induction os generalizing s with
  | nil => rfl
  | cons o os ih =>
    rw [List.foldl_cons, ih]
    simp [report]

theorem worth_foldl_report (μ : Report → Nat) (os : List Observation) (s : Scheduler) :
    (os.foldl (fun s o => s.report (.noted o)) s).worth μ = s.worth μ + notesWorth μ os := by
  induction os generalizing s with
  | nil => rfl
  | cons o os ih =>
    rw [List.foldl_cons, ih, worth_report, notesWorth_cons]
    omega

/-- The state in which a worker has made its next answer. -/
def answerOnce (s : Scheduler) (id : Nat) (answer : List Observation) : Scheduler :=
  (answer.foldl (fun s o => s.report (.noted o)) s).change id
    fun w => { w with answered := w.answered + 1 }

/-- A worker makes an answer, to a task that has completed. -/
theorem Orderly.answerOnce {rest : List Nat} (h : s.Orderly (some id) rest)
    (hw : s.workers[id]? = some w) (hanswered : w.answered < w.completed)
    (answer : List Observation) : (s.answerOnce id answer).Orderly (some id) rest := by
  unfold Scheduler.answerOnce
  rw [foldl_report]
  obtain ⟨hqueued, hresting, _, hstarted, _, _, _, hdone, hcurrent⟩ := h.fits id w hw
  have hbusy := hcurrent rfl
  refine h.update hw (fun w => { w with answered := w.answered + 1 }) rfl rfl
    (fun i hi => ⟨rfl, rfl, Iff.rfl⟩) rfl (Nat.le_refl _) Iff.rfl
    ⟨hqueued, hresting, hanswered, hstarted, fun hn => absurd rfl hn, fun hn => absurd rfl hn,
      ?_, hdone, hcurrent⟩
  simp [hbusy]

theorem workers_answerOnce (hw : s.workers[id]? = some w) (answer : List Observation) :
    (s.answerOnce id answer).workers[id]? = some { w with answered := w.answered + 1 } := by
  unfold answerOnce
  rw [foldl_report]
  exact workers_change_self hw _

theorem resting_answerOnce (s : Scheduler) (id : Nat) (answer : List Observation) :
    (s.answerOnce id answer).resting = s.resting := by
  unfold answerOnce
  rw [foldl_report]
  rfl

theorem bound_answerOnce (hw : s.workers[id]? = some w) (answer : List Observation) :
    (s.answerOnce id answer).bound = s.bound := by
  unfold answerOnce
  rw [foldl_report]
  generalize (answer.map fun o => (s.time, Report.noted o)).reverse ++ s.reports = reports
  have hw' : ({ s with reports } : Scheduler).workers[id]? = some w := hw
  have hchange := bound_change hw' fun w => { w with answered := w.answered + 1 }
  have hsame : Worker.weight { w with answered := w.answered + 1 } = w.weight := rfl
  have hreports : ({ s with reports } : Scheduler).bound = s.bound := rfl
  omega

theorem worth_answerOnce (μ : Report → Nat) (hw : s.workers[id]? = some w)
    (answer : List Observation) :
    (s.answerOnce id answer).worth μ = s.worth μ + notesWorth μ answer := by
  have hw' : (answer.foldl (fun s o => s.report (.noted o)) s).workers[id]? = some w := by
    rw [foldl_report]
    exact hw
  have hchange := worth_change μ hw' fun w => { w with answered := w.answered + 1 }
  have hsame : Worker.worth μ { w with answered := w.answered + 1 } = w.worth μ := rfl
  rw [worth_foldl_report] at hchange
  unfold answerOnce
  omega

/-- A worker makes an answer when nothing is queued. -/
theorem Carries.answer_nil {answer : List Observation}
    (h : s.Carries id w (.join [] [] (answer :: answers) :: script))
    (hanswered : w.answered < w.completed) :
    Leads s id w (.join [] [] (answer :: answers) :: script) (s.answerOnce id answer)
      { w with answered := w.answered + 1 } (.join [] [] answers :: script) := by
  obtain ⟨hle, hle'⟩ := h.answered_le
  obtain ⟨hdeliverable, hstarted, hqueued, hscript⟩ := h.sound
  refine ⟨⟨?_, workers_answerOnce h.worker answer, h.cleared, ?_, hstarted, hqueued, hscript⟩, rfl,
    Nat.le_refl _, ?_, fun μ hμ => ?_⟩
  · rw [resting_answerOnce]
    exact h.orderly.answerOnce h.worker hanswered answer
  · have hcount : w.started - w.answered + ([] : List Script).length
        = w.started - (w.answered + 1) + 1 := by
      rw [List.length_nil]
      omega
    rw [hcount] at hdeliverable
    exact hdeliverable.answer_of_nil
  · have hcost : Script.cost (.join [] [] answers :: script)
        ≤ Script.cost (.join [] [] (answer :: answers) :: script) := by
      rw [Script.cost_cons, Script.cost_cons]
      simp only [Act.size, List.length_cons]
      omega
    rw [bound_answerOnce h.worker]
    simp only
    omega
  · rw [worth_answerOnce μ h.worker, Script.worth_join_answer]
    simp only
    omega

/-- A worker makes an answer, not the last one, and starts the next task. -/
theorem Carries.answer_start {task : Script} {answer next : List Observation}
    (h : s.Carries id w (.join [] (task :: queued) (answer :: next :: answers) :: script))
    (hanswered : w.answered < w.completed) :
    Leads s id w (.join [] (task :: queued) (answer :: next :: answers) :: script)
      ((s.answerOnce id answer).start id task)
      { w with answered := w.answered + 1, started := w.started + 1 }
      (.join [] queued (next :: answers) :: script) := by
  obtain ⟨hle, hle'⟩ := h.answered_le
  obtain ⟨hdeliverable, _, ⟨htask, hqueued⟩, hscript⟩ := h.sound
  have hw := workers_answerOnce h.worker answer
  have horderly := h.orderly.answerOnce h.worker hanswered answer
  refine ⟨⟨?_, workers_start_self hw task, h.cleared, ?_, trivial, hqueued, hscript⟩, rfl,
    Nat.le_succ _, ?_, fun μ hμ => ?_⟩
  · rw [resting_start hw, resting_answerOnce]
    exact horderly.start hw htask
  · have hcount : w.started - w.answered + ([] : List Script).length
        = w.started + 1 - (w.answered + 1) + ([] : List Script).length := by
      omega
    rw [hcount] at hdeliverable
    exact hdeliverable.answer
  · have hbound := bound_start hw hle' task
    have hcost := Script.cost_join_answer task queued answer (next :: answers) script
    rw [bound_answerOnce h.worker] at hbound
    simp only
    omega
  · have hroot := horderly.descends.root id _ hw
    have hscript : Script.worth μ w.employer?.isNone w.started
        (.join [] (task :: queued) (answer :: next :: answers) :: script)
          = notesWorth μ answer + (task.worth μ false 0
            + (if w.employer?.isNone then μ (.completed first w.started) else 0)
            + Script.worth μ w.employer?.isNone (w.started + 1)
                (.join [] queued (next :: answers) :: script)) := by
      rw [Script.worth_join_answer, Script.worth_join_queued, Script.worth_join_start]
    rw [worth_start hμ hroot hw h.cleared, worth_answerOnce μ h.worker, hscript]
    simp only
    omega

/-- A worker answers to the tasks that have completed, until no answer is left. -/
theorem Carries.answerAll {n : Nat} (h : s.Carries id w (.join [] queued answers :: script))
    (hn : w.answered + n = w.completed) :
    ∃ (queued' : List Script) (answers' : List (List Observation)) (s' : Scheduler) (w' : Worker),
      answer id n queued answers s = (queued', answers', s')
        ∧ (answers' = [] ∨ w'.answered = w'.completed)
        ∧ Leads s id w (.join [] queued answers :: script) s' w'
            (.join [] queued' answers' :: script) := by
  induction n generalizing s w queued answers with
  | zero => exact ⟨queued, answers, s, w, rfl, .inr hn, Leads.refl h⟩
  | succ n ih =>
    cases answers with
    | nil => exact ⟨queued, [], s, w, rfl, .inl rfl, Leads.refl h⟩
    | cons answer answers =>
      cases queued with
      | nil =>
        have hstep := h.answer_nil (by omega)
        obtain ⟨queued', answers', s', w', heq, hdone, hleads⟩ :=
          ih hstep.carries (by simp only; omega)
        exact ⟨queued', answers', s', w', heq, hdone, hstep.trans hleads⟩
      | cons task queued =>
        cases answers with
        | nil =>
          have := h.sound.1.queued_eq_zero (Nat.le_refl _)
          simp at this
        | cons next answers =>
          have hstep := h.answer_start (by omega)
          obtain ⟨queued', answers', s', w', heq, hdone, hleads⟩ :=
            ih hstep.carries (by simp only; omega)
          exact ⟨queued', answers', s', w', heq, hdone, hstep.trans hleads⟩

/-! ### The end of a stretch -/

/-- What a worker does after a part of its script is what it does at all. -/
theorem Leads.carried {t : Scheduler} (h : Leads s id w script s' w' script')
    (h' : Carried s' w' script' t) : Carried s w script t := by
  obtain ⟨horderly, hbound, hworth⟩ := h'
  refine ⟨horderly, ?_, ?_⟩
  · have := h.bound
    have := h.started
    omega
  · intro μ hμ
    have hafter := hworth μ hμ
    rw [h.employer] at hafter
    rw [hafter, h.worth μ hμ]

/-- A worker that waits for a task of its own is called for tasks it has just started. -/
theorem Leads.carried_call {t : Scheduler} (h : Leads s id w script s' w' script')
    (hstarted : w.started < w'.started) (h' : Carried s' w' script' t)
    (horderly : (t.call id).Orderly none (t.call id).resting)
    (hbound : (t.call id).bound ≤ t.bound + 3) (hworth : ∀ μ, (t.call id).worth μ = t.worth μ) :
    Carried s w script (t.call id) := by
  refine ⟨horderly, ?_, ?_⟩
  · have := h.bound
    have := h'.bound
    omega
  · intro μ hμ
    rw [hworth]
    exact (h.carried h').worth μ hμ

/-- The state in which a worker has left its join behind. -/
def leaveJoin (s : Scheduler) (id : Nat) : Scheduler :=
  s.change id fun w => { w with joins := w.joins + 1, started := 0, completed := 0, answered := 0 }

/-- After the last answer a worker goes on behind the join, with nothing in flight. -/
theorem Carries.leaveJoin (h : s.Carries id w (.join [] queued [] :: script)) :
    ∃ w' : Worker, w'.employer? = w.employer? ∧ w'.started = 0
      ∧ (s.leaveJoin id).Carries id w' script ∧ (s.leaveJoin id).bound ≤ s.bound
      ∧ ∀ μ, (s.leaveJoin id).worth μ + script.worth μ w.employer?.isNone 0
          = s.worth μ + Script.worth μ w.employer?.isNone w.started
              (.join [] queued [] :: script) := by
  obtain ⟨hqueued, hresting, _, _, _, _, _, hdone, hcurrent⟩ := h.orderly.fits id w h.worker
  obtain ⟨hdeliverable, _, _, hscript⟩ := h.sound
  obtain rfl : queued = [] := List.length_eq_zero_iff.mp (hdeliverable.queued_eq_zero (by simp))
  let g (w : Worker) : Worker :=
    { w with joins := w.joins + 1, started := 0, completed := 0, answered := 0 }
  -- Nobody is a task of a join that the worker has not come to.
  have hflight : s.inFlight id (w.joins + 1) = 0 := by
    refine h.orderly.descends.inFlight_eq_zero ?_
    intro v hv
    rw [h.worker] at hv
    rw [← Option.some.inj hv]
    exact Nat.lt_succ_self _
  refine ⟨g w, rfl, rfl, ⟨?_, workers_change_self h.worker g, h.cleared, ?_⟩, ?_, ?_⟩
  · refine h.orderly.update h.worker g rfl rfl (fun i hi => ⟨rfl, rfl, Iff.rfl⟩) rfl
      (Nat.le_succ _) Iff.rfl ⟨hqueued, hresting, Nat.le_refl _, ?_, fun hn => absurd rfl hn,
        fun hn => absurd rfl hn, fun _ => rfl, hdone, hcurrent⟩
    show 0 = 0 + s.inFlight id (w.joins + 1)
    rw [hflight]
  · show script.SoundWith (0 - 0)
    exact Script.soundWith_zero.mpr hscript
  · have hchange := bound_change h.worker g
    have hweight : (g w).weight ≤ w.weight := by
      simp only [Worker.weight, g]
      omega
    show (s.change id g).bound ≤ s.bound
    omega
  · intro μ
    have hchange := worth_change μ h.worker g
    have hsame : (g w).worth μ = w.worth μ := by
      simp only [Worker.worth, g, h.cleared, Script.worth_nil]
      rfl
    rw [Script.worth_join_nil]
    show (s.change id g).worth μ + _ = _
    omega

/-- What a worker does behind a join it does after the last answer. -/
theorem Carries.carried_leaveJoin (h : s.Carries id w (.join [] queued [] :: script))
    (hlater : ∀ {t : Scheduler} {v : Worker}, t.Carries id v script →
      Carried t v script (carryOut id script t)) :
    Carried s w (.join [] queued [] :: script) (carryOut id script (s.leaveJoin id)) := by
  obtain ⟨w', hemployer, hzero, hcarries, hbound, hworth⟩ := h.leaveJoin
  obtain ⟨horderly, hbound', hworth'⟩ := hlater hcarries
  refine ⟨horderly, ?_, ?_⟩
  · have := Script.cost_cons (.join [] queued []) script
    omega
  · intro μ hμ
    have hafter := hworth' μ hμ
    rw [hemployer, hzero] at hafter
    rw [hafter, hworth]

/-- The current worker has nothing more to do now, since a task of it is in flight. -/
theorem Orderly.release {rest : List Nat} (h : s.Orderly (some id) rest)
    (hw : s.workers[id]? = some w) (hsound : w.script.SoundWith (w.started - w.answered))
    (hwaits : w.completed < w.started) : s.Orderly none rest := by
  refine ⟨h.descends, h.known, fun i v hv => ?_⟩
  by_cases hi : i = id
  · subst hi
    rw [hw] at hv
    obtain rfl := Option.some.inj hv
    obtain ⟨hqueued, hresting, hanswered, hstarted, _, _, hsettled, hdone, _⟩ := h.fits i w hw
    exact ⟨hqueued, hresting, hanswered, hstarted, fun _ => hsound, fun _ _ => hwaits, hsettled,
      hdone, fun hn => by simp at hn⟩
  · have hne : (some id = some i) = ((none : Option Nat) = some i) := by simp [Ne.symm hi]
    rw [← hne]
    exact h.fits i v hv

/-- The state in which a worker keeps what is left of its script. -/
def keep (s : Scheduler) (id : Nat) (script : Script) : Scheduler :=
  s.change id fun w => { w with script }

/-- A worker keeps a join for which it has nothing to answer yet. -/
theorem Carries.orderly_keep (h : s.Carries id w (.join [] queued answers :: script)) :
    (s.keep id (.join [] queued answers :: script)).Orderly (some id) s.resting := by
  obtain ⟨hqueued, hresting, hle, hstarted, _, _, hsettled, hdone, hcurrent⟩ :=
    h.orderly.fits id w h.worker
  have hbusy := hcurrent rfl
  refine h.orderly.update h.worker (fun w => { w with script := .join [] queued answers :: script })
    rfl rfl (fun i hi => ⟨rfl, rfl, Iff.rfl⟩) rfl (Nat.le_refl _) Iff.rfl
    ⟨hqueued, hresting, hle, hstarted, fun hn => absurd rfl hn, fun hn => absurd rfl hn, hsettled,
      ?_, hcurrent⟩
  intro hended
  simp [hbusy] at hended

theorem Carries.carried_keep (h : s.Carries id w (.join [] queued answers :: script))
    (hanswers : answers ≠ []) (hanswered : w.answered = w.completed) :
    Carried s w (.join [] queued answers :: script)
      (s.keep id (.join [] queued answers :: script)) := by
  let g (w : Worker) : Worker := { w with script := .join [] queued answers :: script }
  have hget : (s.change id g).workers[id]? = some (g w) := workers_change_self h.worker g
  have hwaits : w.completed < w.started := by
    have := h.sound.1.inFlight (List.length_pos_iff.mpr hanswers)
    rw [List.length_nil] at this
    omega
  refine ⟨h.orderly_keep.release hget h.sound hwaits, ?_, ?_⟩
  · have hchange := bound_change h.worker g
    have hweight : (g w).weight = w.weight + Script.cost (.join [] queued answers :: script) := by
      simp only [Worker.weight, g, h.cleared, Script.cost_nil]
      omega
    show (s.change id g).bound ≤ _
    omega
  · intro μ _
    have hchange := worth_change μ h.worker g
    have hworth : (g w).worth μ = w.worth μ + Script.worth μ w.employer?.isNone w.started
        (.join [] queued answers :: script) := by
      have hfarewell : farewell (g w) = farewell w := rfl
      simp only [Worker.worth, hfarewell, h.cleared, Script.worth_nil, g]
      omega
    show (s.change id g).worth μ = _
    omega

/-- A worker waits for its tasks, or is called at once when all of them in flight are
tasks that it has just started. -/
theorem Leads.carried_keep (h : Leads s id w script s' w' (.join [] queued answers :: script'))
    (hanswers : answers ≠ []) (hanswered : w'.answered = w'.completed) {t : Scheduler}
    (ht : t = s'.keep id (.join [] queued answers :: script')) :
    Carried s w script
      (if w.started < (t.tally id).1
          && (t.tally id).1 - w.started = (t.tally id).1 - (t.tally id).2.2 then t.call id
        else t) := by
  subst ht
  have hcarried := h.carries.carried_keep hanswers hanswered
  have hcurrent := h.carries.orderly_keep
  generalize hkept : s'.keep id (.join [] queued answers :: script') = t at hcarried hcurrent ⊢
  have hget : t.workers[id]? = some { w' with script := .join [] queued answers :: script' } := by
    rw [← hkept]
    exact workers_change_self h.carries.worker _
  have hbusy : w'.standing = .busy := (hcurrent.fits id _ hget).current rfl
  have htally : t.tally id = (w'.started, w'.completed, w'.answered) := by
    simp [tally, hget]
  rw [htally]
  split
  next hjust =>
    simp only [Bool.and_eq_true, decide_eq_true_eq] at hjust
    refine h.carried_call hjust.1 hcarried ?_ ?_ ?_
    · have hresting : t.resting = s'.resting := by
        rw [← hkept]
        rfl
      rw [resting_call, hresting]
      exact hcurrent.call hget (fun i hi heq => hi (Option.some.inj heq).symm) (.inl hbusy)
        (fun i => by simp [hbusy]) h.carries.sound
    · have hcall := bound_call hget (by simp [hbusy])
      omega
    · intro μ
      exact worth_call hget (by simp [hbusy]) (by simp [hbusy])
  next => exact h.carried hcarried

theorem Carries.carried_finish (h : s.Carries id w []) : Carried s w [] (s.finish id) := by
  have hsettled := h.settled h.sound.1
  have horderly : (s.finish id).Orderly none s.resting := by
    rcases h.orderly.finish_cases h.worker h.cleared hsettled with
      ⟨_, horderly⟩ | ⟨_, _, _, _, _, _, _, _, _, horderly⟩
    · exact horderly
    · exact horderly
  refine ⟨?_, ?_, ?_⟩
  · rw [resting_finish]
    exact horderly
  · exact bound_finish h.orderly h.worker h.cleared hsettled
  · intro μ _
    rw [Script.worth_nil]
    exact worth_finish h.orderly h.worker h.cleared hsettled

theorem carried_carryOut (h : s.Carries id w script) :
    Carried s w script (carryOut id script s) := by
  -- A stretch ends where the worker gives way, waits or ends; only behind other acts
  -- does it go on along the script.
  induction script generalizing s w with
  | nil => exact h.carried_finish
  | cons act script ih =>
    cases act with
    | note o =>
      obtain ⟨horderly, hbound, hworth⟩ := ih h.note
      rw [carryOut]
      refine ⟨horderly, ?_, ?_⟩
      · have hcost := Script.cost_cons (.note o) script
        have hsame : (s.report (.noted o)).bound = s.bound := rfl
        omega
      · intro μ hμ
        have := hworth μ hμ
        rw [worth_report] at this
        rw [Script.worth_note]
        omega
    | giveWay =>
      let t : Scheduler := { s with gaveWay := id :: s.gaveWay }
      have hcost : Script.cost script + 4 ≤ Script.cost (.giveWay :: script) := by
        rw [Script.cost_cons, show Act.size .giveWay = 1 from rfl]
        omega
      refine h.carried_rest (h.settled h.sound.1) h.sound.2.2 hcost
        (fun μ => Script.worth_giveWay.symm) (show t.bound = s.bound from rfl)
        (fun μ => rfl) rfl rfl rfl ?_
      intro i
      show (id :: s.resting).count i = _
      rw [List.count_cons]
      simp
    | wait ms =>
      let t : Scheduler := { s with waiting := insertWaiting (s.time + ms) id s.waiting }
      have hcost : Script.cost script + 4 ≤ Script.cost (.wait ms :: script) := by
        rw [Script.cost_cons, show Act.size (.wait ms) = 1 from rfl]
        omega
      refine h.carried_rest (h.settled h.sound.1) h.sound.2.2 hcost
        (fun μ => (Script.worth_wait ms).symm) (show t.bound = s.bound from rfl)
        (fun μ => rfl) rfl rfl rfl ?_
      intro i
      show (s.gaveWay ++ (insertWaiting (s.time + ms) id s.waiting).map Prod.snd).count i
        = (s.gaveWay ++ s.waiting.map Prod.snd).count i + _
      rw [List.count_append, List.count_append, count_insertWaiting]
      omega
    | join started queued answers =>
      have hle := h.answered_le
      obtain ⟨w₁, hcompleted, hanswered, hstarts⟩ := h.starts
      obtain ⟨queued', answers', s', w', heq, hdone, hanswers⟩ :=
        hstarts.carries.answerAll (n := w.completed - w.answered) (by omega)
      have hleads := hstarts.trans hanswers
      have htally : s.tally id = (w.started, w.completed, w.answered) := by
        simp [tally, h.worker]
      simp only [carryOut, htally, heq]
      cases answers' with
      | nil => exact hleads.carried (hleads.carries.carried_leaveJoin ih)
      | cons next later =>
        exact hleads.carried_keep (by simp) (hdone.resolve_left (by simp)) rfl

end Scheduler

end DocTemplate
