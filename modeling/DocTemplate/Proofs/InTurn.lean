/-
Tasks that are carried out in turn.

While a single script is carried out the workers who are not at their ends stand in a
line, each of them waiting for the next one, and only the youngest has something to do
(`Scheduler.InTurn`).  So the calls that have been made, together with those that are
still to be made by the workers, the youngest first, are the calls of the whole script in
the order of the program (`Scheduler.story`).

* `Scheduler.Works.carryOut` — a whole stretch of a script;
* `Scheduler.Orderly.continues_run` — all places and turns;
* `Script.play_invocations` — a whole single script.
-/
import DocTemplate.Proofs.Play
import DocTemplate.Proofs.Single

namespace DocTemplate

namespace Scheduler

variable {s s' : Scheduler} {id : Nat} {w w' : Worker} {script : Script}

/-! ### Calls that have been made and calls to come -/

/-- The calls that have been reported, in order. -/
def past (s : Scheduler) : List Invocation := s.reports.reverse.filterMap fun r => r.2.invocation?

/-- What remains of the scripts, the oldest worker first. -/
def scripts (s : Scheduler) : List Script := s.workers.toList.map Worker.script

/-- The calls in some scripts when the last of them is carried out first. -/
def outlook (scripts : List Script) : List Invocation :=
  scripts.reverse.flatMap Script.invocations

/-- The calls that have been made, and those to come if younger workers go first. -/
def story (s : Scheduler) : List Invocation := s.past ++ outlook s.scripts

theorem outlook_append (xs ys : List Script) : outlook (xs ++ ys) = outlook ys ++ outlook xs := by
  simp [outlook]

theorem outlook_singleton (x : Script) : outlook [x] = x.invocations := by
  simp [outlook]

theorem outlook_eq_nil {scripts : List Script} (h : ∀ x ∈ scripts, x = []) :
    outlook scripts = [] := by
  simp only [outlook, List.flatMap_eq_nil_iff, List.mem_reverse]
  intro x hx
  rw [h x hx]
  rfl

theorem outlook_set {scripts : List Script} (hid : id < scripts.length)
    (h : ∀ x ∈ scripts.drop (id + 1), x = []) (x : Script) :
    outlook (scripts.set id x) = x.invocations ++ outlook (scripts.take id) := by
  rw [List.set_eq_take_append_cons_drop, if_pos hid, outlook_append, ← List.singleton_append,
    outlook_append, outlook_singleton, outlook_eq_nil h, List.nil_append]

theorem getElem?_scripts (s : Scheduler) (i : Nat) :
    s.scripts[i]? = s.workers[i]?.map Worker.script := by
  simp [scripts]

theorem length_scripts (s : Scheduler) : s.scripts.length = s.workers.size := by
  simp [scripts]

theorem scripts_change (hw : s.workers[id]? = some w) (g : Worker → Worker) :
    (s.change id g).scripts = s.scripts.set id (g w).script := by
  apply List.ext_getElem?
  intro i
  rw [getElem?_scripts, workers_change, List.getElem?_set, length_scripts, getElem?_scripts]
  by_cases hi : id = i
  · subst hi
    rw [if_pos rfl, if_pos rfl, if_pos (lt_size hw), hw]
    rfl
  · rw [if_neg hi, if_neg hi]

theorem scripts_change_of_eq (hw : s.workers[id]? = some w) {g : Worker → Worker}
    (h : (g w).script = w.script) : (s.change id g).scripts = s.scripts := by
  have hget : s.scripts[id]? = some w.script := by
    rw [getElem?_scripts, hw]
    rfl
  obtain ⟨hlt, hget⟩ := List.getElem?_eq_some_iff.mp hget
  rw [scripts_change hw, h, ← hget]
  exact List.set_getElem_self hlt

theorem scripts_start (hw : s.workers[id]? = some w) (task : Script) :
    (s.start id task).scripts = s.scripts ++ [task] := by
  rw [start_eq hw, scripts_change_of_eq (workers_hire_of_lt _ hw) rfl]
  simp [scripts, hire, Scheduler.task]

theorem past_start (hw : s.workers[id]? = some w) (task : Script) :
    (s.start id task).past = s.past := by
  rw [start_eq hw]
  rfl

theorem past_report (s : Scheduler) (r : Report) :
    (s.report r).past = s.past ++ r.invocation?.toList := by
  cases hr : r.invocation? <;> simp [past, report, hr]

theorem past_answerOnce {answer : List Observation}
    (h : answer.filterMap Observation.invocation? = []) (s : Scheduler) (id : Nat) :
    (s.answerOnce id answer).past = s.past := by
  have hquiet : (answer.map fun o => (s.time, Report.noted o)).filterMap
      (fun r => r.2.invocation?) = [] := by
    rw [List.filterMap_map]
    exact h
  unfold answerOnce
  rw [foldl_report]
  show List.filterMap _ (_ ++ s.reports).reverse = _
  rw [List.reverse_append, List.reverse_reverse, List.filterMap_append, hquiet, List.append_nil]
  rfl

/-! ### Workers in a line -/

/-- Of the workers who are not at their ends each waits for a younger one, but for the
youngest of them. -/
structure InTurn (s : Scheduler) : Prop where
  single : ∀ (i : Nat) (v : Worker), s.workers[i]? = some v →
    v.script.SingleWith (v.started - v.answered)
  line : ∀ (i j : Nat) (v u : Worker), i < j → s.workers[i]? = some v → s.workers[j]? = some u →
    v.standing ≠ .ended → u.standing ≠ .ended → v.completed < v.started

/-- All workers who are younger than one are at their ends. -/
def Youngest (s : Scheduler) (id : Nat) : Prop :=
  ∀ (i : Nat) (v : Worker), id < i → s.workers[i]? = some v → v.standing = .ended

theorem Youngest.of_other (h : s.Youngest id)
    (hother : ∀ i, i ≠ id → s'.workers[i]? = s.workers[i]?) : s'.Youngest id := by
  intro i v hi hv
  rw [hother i (by omega)] at hv
  exact h i v hi hv

theorem Orderly.drop_scripts {current : Option Nat} {rest : List Nat}
    (h : s.Orderly current rest) (hy : s.Youngest id) : ∀ x ∈ s.scripts.drop (id + 1), x = [] := by
  intro x hx
  obtain ⟨i, hi⟩ := List.mem_iff_getElem?.mp hx
  rw [List.getElem?_drop, getElem?_scripts] at hi
  obtain ⟨v, hv, rfl⟩ := Option.map_eq_some_iff.mp hi
  exact (h.fits _ v hv).done (hy _ v (by omega) hv)

/-- One worker changes, and is the youngest or waits for a younger one. -/
theorem InTurn.replace (h : (s.keep id script).InTurn) (hw : s.workers[id]? = some w)
    (hw' : s'.workers[id]? = some w') (hother : ∀ i, i ≠ id → s'.workers[i]? = s.workers[i]?)
    (hsingle : w'.script.SingleWith (w'.started - w'.answered))
    (hended : w.standing = .ended → w'.standing = .ended)
    (hline : s.Youngest id ∨ w'.completed < w'.started) : s'.InTurn := by
  have hkept (i : Nat) (v : Worker) (hi : i ≠ id) (hv : s'.workers[i]? = some v) :
      (s.keep id script).workers[i]? = some v := by
    rw [keep, workers_change, if_neg (Ne.symm hi), ← hother i hi, hv]
  have hself : (s.keep id script).workers[id]? = some { w with script } :=
    workers_change_self hw _
  constructor
  · intro i v hv
    by_cases hi : i = id
    · rw [hi, hw'] at hv
      rw [← Option.some.inj hv]
      exact hsingle
    · exact h.single i v (hkept i v hi hv)
  · intro i j v u hij hv hu hvalive hualive
    by_cases hi : i = id
    · subst hi
      obtain rfl := Option.some.inj (hw'.symm.trans hv)
      rcases hline with hyoungest | hwaits
      · rw [hother j (by omega)] at hu
        exact absurd (hyoungest j u hij hu) hualive
      · exact hwaits
    · by_cases hj : j = id
      · subst hj
        obtain rfl := Option.some.inj (hw'.symm.trans hu)
        exact h.line i j v _ hij (hkept i v hi hv) hself hvalive fun hw => hualive (hended hw)
      · exact h.line i j v u hij (hkept i v hi hv) (hkept j u hj hu) hvalive hualive

/-- The youngest worker starts a task, for which it waits. -/
theorem InTurn.start {task : Script} (h : (s.keep id script).InTurn)
    (hw : s.workers[id]? = some w) (hy : s.Youngest id) (hle : w.completed ≤ w.started)
    (hbusy : w.standing ≠ .ended) (htask : Script.Single task) {later : Script}
    (hlater : later.SingleWith (w.started + 1 - w.answered)) :
    ((s.start id task).keep id later).InTurn := by
  have hcases (i : Nat) (v : Worker)
      (hv : ((s.start id task).keep id later).workers[i]? = some v) :
      (i = s.workers.size ∧ v = Scheduler.task id w task)
        ∨ (i = id ∧ v = { w with started := w.started + 1, script := later })
        ∨ (i ≠ id ∧ (s.keep id script).workers[i]? = some v) := by
    rcases workers_change_cases (workers_start_self hw task) hv with hv | ⟨hi, hv⟩
    · exact .inr (.inl hv)
    · rcases workers_start_cases hw hv with hv | ⟨rfl, _⟩ | ⟨_, hv⟩
      · exact .inl hv
      · exact absurd rfl hi
      · refine .inr (.inr ⟨hi, ?_⟩)
        rw [keep, workers_change, if_neg (Ne.symm hi), hv]
  have hself : (s.keep id script).workers[id]? = some { w with script } :=
    workers_change_self hw _
  have hold {i : Nat} {v : Worker} (hi : i ≠ id) (hv : (s.keep id script).workers[i]? = some v)
      (halive : v.standing ≠ .ended) : i < id := by
    refine Decidable.byContradiction ?_
    intro hn
    rw [keep, workers_change, if_neg (Ne.symm hi)] at hv
    exact halive (hy i v (by omega) hv)
  constructor
  · intro i v hv
    rcases hcases i v hv with ⟨_, rfl⟩ | ⟨_, rfl⟩ | ⟨_, hv⟩
    · exact Script.singleWith_zero.mpr htask
    · exact hlater
    · exact h.single i v hv
  · intro i j v u hij hv hu hvalive hualive
    have hsize := lt_size hw
    rcases hcases i v hv with ⟨rfl, _⟩ | ⟨rfl, rfl⟩ | ⟨hi, hv⟩
    · -- Nobody is younger than the new worker.
      have := lt_size hu
      have hsize' : ((s.start id task).keep id later).workers.size = s.workers.size + 1 := by
        rw [start_eq hw]
        simp [keep, Scheduler.change, Scheduler.hire]
      omega
    · exact Nat.lt_succ_of_le hle
    · exact h.line i id v _ (hold hi hv hvalive) hv hself hvalive hbusy

theorem InTurn.change (h : s.InTurn) (hw : s.workers[id]? = some w) {g : Worker → Worker}
    (hscript : (g w).script = w.script) (hstarted : (g w).started = w.started)
    (hcompleted : (g w).completed = w.completed) (hanswered : (g w).answered = w.answered)
    (hended : w.standing = .ended → (g w).standing = .ended) :
    (s.change id g).InTurn ∧ (s.change id g).story = s.story := by
  constructor
  · constructor
    · intro i v hv
      rcases workers_change_cases hw hv with ⟨_, rfl⟩ | ⟨_, hv⟩
      · rw [hscript, hstarted, hanswered]
        exact h.single id w hw
      · exact h.single i v hv
    · intro i j v u hij hv hu hvalive hualive
      have hbefore {k : Nat} {x : Worker} (hx : (s.change id g).workers[k]? = some x)
          (halive : x.standing ≠ .ended) : ∃ y : Worker, s.workers[k]? = some y
            ∧ y.standing ≠ .ended ∧ x.completed = y.completed ∧ x.started = y.started := by
        rcases workers_change_cases hw hx with ⟨rfl, rfl⟩ | ⟨_, hx⟩
        · exact ⟨w, hw, fun hw => halive (hended hw), hcompleted, hstarted⟩
        · exact ⟨x, hx, halive, rfl, rfl⟩
      obtain ⟨y, hy, hyalive, hc, hs⟩ := hbefore hv hvalive
      obtain ⟨z, hz, hzalive, _⟩ := hbefore hu hualive
      rw [hc, hs]
      exact h.line i j y z hij hy hz hyalive hzalive
  · show (s.change id g).past ++ outlook (s.change id g).scripts = _
    rw [scripts_change_of_eq hw hscript]
    rfl

theorem InTurn.call (h : s.InTurn) (hw : s.workers[id]? = some w) (halive : w.standing ≠ .ended) :
    (s.call id).InTurn ∧ (s.call id).story = s.story := by
  by_cases hcalled : w.standing = .called
  · rw [call_of_called hw hcalled]
    exact ⟨h, rfl⟩
  · have hchange := h.change hw (g := fun w => { w with standing := .called }) rfl rfl rfl rfl
      fun hended => absurd hended halive
    rw [call_eq hw hcalled]
    split
    · exact hchange
    · exact ⟨⟨hchange.1.single, hchange.1.line⟩, hchange.2⟩

/-! ### Stretches of single scripts -/

theorem Orderly.story_keep {current : Option Nat} {rest : List Nat} (h : s.Orderly current rest)
    (hw : s.workers[id]? = some w) (hy : s.Youngest id) (later : Script) :
    (s.keep id later).story
      = s.past ++ (later.invocations ++ outlook (s.scripts.take id)) := by
  have hlt : id < s.scripts.length := by
    rw [length_scripts]
    exact lt_size hw
  have hscripts : (s.keep id later).scripts = s.scripts.set id later := scripts_change hw _
  rw [story, hscripts, outlook_set hlt (h.drop_scripts hy)]
  rfl

theorem Orderly.story_start {current : Option Nat} {rest : List Nat} (h : s.Orderly current rest)
    (hw : s.workers[id]? = some w) (hy : s.Youngest id) (task later : Script) :
    ((s.start id task).keep id later).story
      = s.past ++ (task.invocations ++ (later.invocations ++ outlook (s.scripts.take id))) := by
  have hlt : id < s.scripts.length := by
    rw [length_scripts]
    exact lt_size hw
  have hscripts : ((s.start id task).keep id later).scripts = s.scripts.set id later ++ [task] := by
    refine (scripts_change (workers_start_self hw task) _).trans ?_
    rw [scripts_start hw, List.set_append_left _ _ hlt]
  have hpast : ((s.start id task).keep id later).past = s.past := past_start hw task
  rw [story, hpast, hscripts, outlook_append, outlook_singleton, outlook_set hlt (h.drop_scripts hy)]

section Join

variable {started queued queued' : List Script} {answers : List (List Observation)}

theorem carryOut_join_of_nil {completed before answered : Nat} {t : Scheduler}
    (htally : s.tally id = (before, completed, answered))
    (hanswer : answer id (completed - answered) queued answers
        (started.foldl (fun s task => s.start id task) s) = (queued', [], t)) :
    carryOut id (.join started queued answers :: script) s = carryOut id script (t.leaveJoin id) := by
  simp only [carryOut, htally, hanswer]
  rfl

theorem carryOut_join_of_cons {completed before answered : Nat} {t : Scheduler}
    {next : List Observation} {later : List (List Observation)}
    (htally : s.tally id = (before, completed, answered))
    (hanswer : answer id (completed - answered) queued answers
        (started.foldl (fun s task => s.start id task) s) = (queued', next :: later, t))
    {u : Scheduler} (hu : t.keep id (.join [] queued' (next :: later) :: script) = u) :
    carryOut id (.join started queued answers :: script) s
      = if before < (u.tally id).1 && (u.tally id).1 - before = (u.tally id).1 - (u.tally id).2.2
        then u.call id else u := by
  subst hu
  simp only [carryOut, htally, hanswer]
  rfl

end Join

/-- The scheduler when a worker has come to its end and has said so. -/
def leave (s : Scheduler) (id : Nat) (w : Worker) : Scheduler :=
  (s.change id fun w => { w with standing := .ended }).report (farewell w)

/-- A worker is at work on a single script, and everybody stands in the line. -/
structure Works (s : Scheduler) (id : Nat) (w : Worker) (script : Script) : Prop where
  carries : s.Carries id w script
  inTurn : (s.keep id script).InTurn

/-- A worker has gone on in a single script as far as it can. -/
structure Worked (s : Scheduler) (id : Nat) (script : Script) (s' : Scheduler) : Prop where
  inTurn : s'.InTurn
  story : s'.story = (s.keep id script).story

namespace Works

theorem kept (h : s.Works id w script) :
    (s.keep id script).workers[id]? = some { w with script } :=
  workers_change_self h.carries.worker _

theorem single (h : s.Works id w script) : script.SingleWith (w.started - w.answered) :=
  h.inTurn.single id _ h.kept

theorem alive (h : s.Works id w script) : w.standing ≠ .ended := by
  have hbusy := (h.carries.orderly.fits id w h.carries.worker).current rfl
  simp [hbusy]

theorem youngest (h : s.Works id w script) (hdone : w.completed = w.started) : s.Youngest id := by
  intro i v hi hv
  refine Decidable.byContradiction ?_
  intro halive
  have hv' : (s.keep id script).workers[i]? = some v := by
    rw [keep, workers_change, if_neg (by omega), hv]
  have hwaits := h.inTurn.line id i _ v hi h.kept hv' h.alive halive
  simp only [hdone, Nat.lt_irrefl] at hwaits

theorem youngest_of_zero (h : s.Works id w script) (hzero : w.started - w.answered = 0) :
    s.Youngest id := by
  have := h.carries.answered_le
  exact h.youngest (by omega)

theorem move {script' : Script} (h : s.Works id w script) (h' : s'.Carries id w' script')
    (hother : ∀ i, i ≠ id → s'.workers[i]? = s.workers[i]?)
    (hsingle : script'.SingleWith (w'.started - w'.answered)) (hy : s.Youngest id) :
    s'.Works id w' script' := by
  refine ⟨h', h.inTurn.replace h.carries.worker (workers_change_self h'.worker _) ?_ hsingle
    (fun hended => absurd hended h.alive) (.inl hy)⟩
  intro i hi
  rw [keep, workers_change, if_neg (Ne.symm hi), hother i hi]

theorem note {o : Observation} (h : s.Works id w (.note o :: script)) :
    (s.report (.noted o)).Works id w script
      ∧ ((s.report (.noted o)).keep id script).story = (s.keep id (.note o :: script)).story := by
  obtain ⟨hzero, hscript⟩ := h.single
  have hy := h.youngest_of_zero hzero
  have hcarries := h.carries.note
  constructor
  · refine h.move hcarries (fun _ _ => rfl) ?_ hy
    rw [hzero]
    exact Script.singleWith_zero.mpr hscript.2
  · rw [hcarries.orderly.story_keep h.carries.worker hy, past_report,
      h.carries.orderly.story_keep h.carries.worker hy, Script.invocations_note]
    simp only [List.append_assoc]
    rfl

theorem rest {later : Script} (h : s.Works id w script) (hzero : w.started - w.answered = 0)
    (hlater : Script.Single later) (hcalls : later.invocations = script.invocations) :
    s.Worked id script (s.change id fun w => { w with script := later, standing := .resting }) := by
  have hw := h.carries.worker
  have hy := h.youngest_of_zero hzero
  constructor
  · refine h.inTurn.replace hw (workers_change_self hw _) ?_ ?_ (fun hended => absurd hended h.alive)
      (.inl hy)
    · intro i hi
      rw [workers_change, if_neg (Ne.symm hi)]
    · show later.SingleWith (w.started - w.answered)
      rw [hzero]
      exact Script.singleWith_zero.mpr hlater
  · have hsame : (s.change id fun w => { w with script := later, standing := .resting }).story
        = (s.keep id later).story := by
      rw [story, story, scripts_change hw, keep, scripts_change hw]
      rfl
    rw [hsame, h.carries.orderly.story_keep hw hy, h.carries.orderly.story_keep hw hy, hcalls]

/-- Between the youngest worker and its employer nobody is left: one who waits there would
wait for somebody in between. -/
theorem ended_between (h : s.Works id w []) (hy : s.Youngest id) {e join : Nat}
    (hemployer : w.employer? = some (e, join)) {i : Nat} {v : Worker} (hi : e < i) (hid : i < id)
    (hv : s.workers[i]? = some v) : v.standing = .ended := by
  refine Decidable.byContradiction ?_
  intro halive
  -- The induction goes from the youngest worker down.
  induction hn : id - i using Nat.strongRecOn generalizing i v with
  | ind n ih =>
    have hv' : (s.keep id []).workers[i]? = some v := by
      rw [keep, workers_change, if_neg (by omega), hv]
    have hwaits := h.inTurn.line i id v _ hid hv' h.kept halive h.alive
    have hstarted := (h.carries.orderly.fits i v hv).started
    obtain ⟨j, u, hu, hworks, hualive⟩ :=
      exists_of_inFlight_pos (show 0 < s.inFlight i v.joins by omega)
    have hlt := (h.carries.orderly.descends.employer j u hu i v.joins hworks).1
    rcases Nat.lt_trichotomy j id with hj | rfl | hj
    · exact ih (id - j) (by omega) (by omega) hj hu hualive rfl
    · rw [h.carries.worker] at hu
      rw [← Option.some.inj hu, hemployer] at hworks
      have := (Prod.mk.inj (Option.some.inj hworks)).1
      omega
    · exact hualive (hy j u hj hu)

theorem leave_inTurn (h : s.Works id w []) :
    (s.leave id w).InTurn ∧ (s.leave id w).story = (s.keep id []).story := by
  have hw := h.carries.worker
  have hcleared := h.carries.cleared
  have hnow : s.InTurn := by
    refine h.inTurn.replace hw hw (fun _ _ => rfl) ?_ (fun hended => hended)
      (.inl (h.youngest_of_zero h.single.1))
    rw [hcleared]
    exact h.single
  have hkept : (s.keep id []).story = s.story := by
    rw [story, keep, scripts_change_of_eq hw hcleared.symm]
    rfl
  obtain ⟨hleft, hstory⟩ :=
    hnow.change hw (g := fun w => { w with standing := .ended }) rfl rfl rfl rfl fun _ => rfl
  have hquiet : (farewell w).invocation? = none := by
    unfold farewell
    cases w.employer? <;> rfl
  refine ⟨⟨hleft.single, hleft.line⟩, ?_⟩
  rw [hkept, ← hstory, leave, story, past_report, hquiet]
  simp only [Option.toList_none, List.append_nil]
  rfl

theorem youngest_leave (h : s.Works id w []) {e join : Nat}
    (hemployer : w.employer? = some (e, join)) : (s.leave id w).Youngest e := by
  have hy := h.youngest_of_zero h.single.1
  intro i x hi hx
  replace hx : (s.change id fun w => { w with standing := .ended }).workers[i]? = some x := hx
  rcases Nat.lt_trichotomy i id with hid | rfl | hid
  · rw [workers_change, if_neg (by omega)] at hx
    exact h.ended_between hy hemployer hi hid hx
  · rw [workers_change_self h.carries.worker] at hx
    rw [← Option.some.inj hx]
  · rw [workers_change, if_neg (by omega)] at hx
    exact hy i x hid hx

/-- At the end of its script the youngest worker leaves the line, and its employer, the
one before it, has something to do again. -/
theorem finish (h : s.Works id w []) : s.Worked id [] (s.finish id) := by
  have hw := h.carries.worker
  have hsettled := h.carries.settled h.single.1
  obtain ⟨hleft, hstory⟩ := h.leave_inTurn
  rcases h.carries.orderly.finish_cases hw h.carries.cleared hsettled with
    ⟨hfinish, _⟩ | ⟨e, v, t, he, hv, hemployer, hwaits, ht, hfinish, _⟩
  · rw [hfinish]
    exact ⟨hleft, hstory⟩
  · replace ht : t = (s.leave id w).change e fun v => { v with completed := v.completed + 1 } := ht
    have hve : (s.leave id w).workers[e]? = some v := by
      show (s.change id _).workers[e]? = _
      rw [workers_change, if_neg (Ne.symm he), hv]
    have halive : v.standing ≠ .ended := by rcases hfinish with h | h <;> simp [h.1]
    have htaken := (hleft.change hve (g := fun v' => { v' with script := v.script }) rfl rfl rfl rfl
      (fun hended => hended)).1
    have hte : t.workers[e]? = some { v with completed := v.completed + 1 } := by
      rw [ht]
      exact workers_change_self hve _
    have hcounted : t.InTurn := by
      refine htaken.replace hve hte ?_ (hleft.single e v hve) (fun hended => absurd hended halive)
        (.inl (h.youngest_leave hemployer))
      intro i hi
      rw [ht, workers_change, if_neg (Ne.symm hi)]
    have htold : t.story = (s.keep id []).story := by
      rw [← hstory, ht, story, scripts_change_of_eq hve rfl]
      rfl
    rcases hfinish with ⟨_, hfinish⟩ | ⟨_, hfinish⟩
    · obtain ⟨hcalled, hsame⟩ := hcounted.call hte halive
      rw [hfinish]
      exact ⟨hcalled, hsame.trans htold⟩
    · rw [hfinish]
      exact ⟨hcounted, htold⟩

variable {queued : List Script} {answers : List (List Observation)}

theorem answerOnce {answer : List Observation}
    (h : s.Works id w (.join [] queued (answer :: answers) :: script))
    (hanswered : w.answered < w.completed) :
    (s.answerOnce id answer).Works id { w with answered := w.answered + 1 } []
      ∧ (s.answerOnce id answer).Youngest id ∧ w.answered + 1 = w.started
      ∧ (s.answerOnce id answer).past = s.past
      ∧ (s.answerOnce id answer).scripts = s.scripts := by
  have hw := h.carries.worker
  have hle := h.carries.answered_le
  have hone := h.single.1.one
  rw [List.length_nil] at hone
  have hy := h.youngest (by omega)
  have hother (i : Nat) (hi : i ≠ id) : (s.answerOnce id answer).workers[i]? = s.workers[i]? := by
    rw [Scheduler.answerOnce, foldl_report, workers_change, if_neg (Ne.symm hi)]
  have hcarries : (s.answerOnce id answer).Carries id { w with answered := w.answered + 1 } [] := by
    refine ⟨?_, workers_answerOnce hw answer, h.carries.cleared, ?_⟩
    · rw [resting_answerOnce]
      exact h.carries.orderly.answerOnce hw hanswered answer
    · exact ⟨by simp only; omega, trivial⟩
  refine ⟨h.move hcarries hother ⟨by simp only; omega, trivial⟩ hy, hy.of_other hother, by omega,
    past_answerOnce (h.single.2.1 answer (by simp)) s id, ?_⟩
  rw [Scheduler.answerOnce, foldl_report]
  exact scripts_change_of_eq hw rfl

theorem leaveJoin (h : s.Works id w (.join [] [] [] :: script)) :
    ∃ w' : Worker, (s.leaveJoin id).Works id w' script
      ∧ ((s.leaveJoin id).keep id script).story
        = (s.keep id (.join [] [] [] :: script)).story := by
  have hw := h.carries.worker
  obtain ⟨hplace, _, _, _, hscript⟩ := h.single
  have hy := h.youngest_of_zero (by simpa using hplace.all.symm)
  have hother (i : Nat) (hi : i ≠ id) : (s.leaveJoin id).workers[i]? = s.workers[i]? := by
    rw [Scheduler.leaveJoin, workers_change, if_neg (Ne.symm hi)]
  obtain ⟨w', _, hzero, hcarries, _⟩ := h.carries.leaveJoin
  refine ⟨w', h.move hcarries hother ?_ hy, ?_⟩
  · rw [hzero, Nat.zero_sub]
    exact Script.singleWith_zero.mpr hscript
  · rw [hcarries.orderly.story_keep hcarries.worker (hy.of_other hother),
      h.carries.orderly.story_keep hw hy, Scheduler.leaveJoin, scripts_change_of_eq hw rfl]
    rfl

/-- A worker may be called when it keeps what is left of its script. -/
theorem worked_keep {t : Scheduler} {before : Nat} (hturn : t.InTurn)
    (hw : t.workers[id]? = some w) (halive : w.standing ≠ .ended)
    (hstory : t.story = (s.keep id script).story) :
    s.Worked id script
      (if before < (t.tally id).1
          && (t.tally id).1 - before = (t.tally id).1 - (t.tally id).2.2 then t.call id
        else t) := by
  obtain ⟨hcalled, hsame⟩ := hturn.call hw halive
  split
  · exact ⟨hcalled, hsame.trans hstory⟩
  · exact ⟨hturn, hstory⟩

theorem carryOut_start {task : Script} {started : List Script}
    (h : s.Works id w (.join (task :: started) queued answers :: script)) :
    s.Worked id (.join (task :: started) queued answers :: script)
      (carryOut id (.join (task :: started) queued answers :: script) s) := by
  have hw := h.carries.worker
  have horderly := h.carries.orderly
  have hle := h.carries.answered_le
  obtain ⟨⟨hone, hall, hused⟩, hquiet, ⟨htask, _⟩, hqueued, hscript⟩ := h.single
  rw [List.length_cons] at hone hall hused
  obtain rfl : started = [] := List.length_eq_zero_iff.mp (by omega)
  have hy := h.youngest_of_zero (by omega)
  have hlater : Script.SingleWith (w.started + 1 - w.answered)
      (.join [] queued answers :: script) := by
    refine ⟨⟨?_, ?_, ?_⟩, hquiet, trivial, hqueued, hscript⟩
    all_goals
      rw [List.length_nil] at *
      omega
  have hturn := h.inTurn.start hw hy hle.2 h.alive htask hlater
  have hstory : ((s.start id task).keep id (.join [] queued answers :: script)).story
      = (s.keep id (.join [task] queued answers :: script)).story := by
    rw [horderly.story_start hw hy, horderly.story_keep hw hy, Script.invocations_start,
      List.append_assoc]
  have htally : s.tally id = (w.started, w.completed, w.answered) := by simp [tally, hw]
  have hnone : w.completed - w.answered = 0 := by omega
  cases answers with
  | nil =>
    rw [List.length_nil] at hall
    omega
  | cons next later =>
    have hanswer : answer id (w.completed - w.answered) queued (next :: later) (s.start id task)
        = (queued, next :: later, s.start id task) := by
      rw [hnone]
      rfl
    rw [carryOut_join_of_cons htally hanswer rfl]
    exact worked_keep hturn (workers_change_self (workers_start_self hw task) _) h.alive hstory

theorem carryOut_next {task : Script} {answer next : List Observation}
    (h : s.Works id w (.join [] (task :: queued) (answer :: next :: answers) :: script))
    (hanswered : w.answered < w.completed) :
    s.Worked id (.join [] (task :: queued) (answer :: next :: answers) :: script)
      (carryOut id (.join [] (task :: queued) (answer :: next :: answers) :: script) s) := by
  have hw := h.carries.worker
  have hle := h.carries.answered_le
  obtain ⟨⟨hone, hall, hused⟩, hquiet, _, ⟨htask, hqueued⟩, hscript⟩ := h.single
  simp only [List.length_cons, List.length_nil] at hone hall
  obtain ⟨hnow, hy, hcount, hpast, hscripts⟩ := h.answerOnce hanswered
  have hw' := hnow.carries.worker
  have hlater : Script.SingleWith (w.started + 1 - (w.answered + 1))
      (.join [] queued (next :: answers) :: script) := by
    refine ⟨⟨?_, ?_, ?_⟩, fun a ha => hquiet a (List.mem_cons_of_mem _ ha), trivial, hqueued,
      hscript⟩
    all_goals
      simp only [List.length_cons, List.length_nil]
      omega
  have hturn := hnow.inTurn.start hw' hy (by simp only; omega) h.alive htask hlater
  have hstory : (((s.answerOnce id answer).start id task).keep id
      (.join [] queued (next :: answers) :: script)).story
      = (s.keep id (.join [] (task :: queued) (answer :: next :: answers) :: script)).story := by
    rw [hnow.carries.orderly.story_start hw' hy, hpast, hscripts,
      h.carries.orderly.story_keep hw (h.youngest (by omega)),
      Script.invocations_answer (hquiet answer (by simp)), Script.invocations_queued,
      List.append_assoc]
  have htally : s.tally id = (w.started, w.completed, w.answered) := by simp [tally, hw]
  have hcompleted : w.completed - w.answered = 1 := by omega
  have hanswer : Scheduler.answer id (w.completed - w.answered) (task :: queued)
      (answer :: next :: answers) s
        = (queued, next :: answers, (s.answerOnce id answer).start id task) := by
    rw [hcompleted]
    rfl
  rw [carryOut_join_of_cons htally hanswer rfl]
  exact worked_keep hturn (workers_change_self (workers_start_self hw' task) _) h.alive hstory

theorem carryOut_last {answer : List Observation}
    (h : s.Works id w (.join [] [] [answer] :: script)) (hanswered : w.answered < w.completed)
    (hlater : ∀ {t : Scheduler} {v : Worker}, t.Works id v script →
      t.Worked id script (carryOut id script t)) :
    s.Worked id (.join [] [] [answer] :: script)
      (carryOut id (.join [] [] [answer] :: script) s) := by
  have hw := h.carries.worker
  have hle := h.carries.answered_le
  obtain ⟨⟨hone, _, _⟩, hquiet, _, _, hscript⟩ := h.single
  rw [List.length_nil] at hone
  obtain ⟨hnow, hy, hcount, hpast, hscripts⟩ := h.answerOnce hanswered
  have hcarries := (h.carries.answer_nil hanswered).carries
  have hover : Script.SingleWith (w.started - (w.answered + 1)) (.join [] [] [] :: script) := by
    rw [show w.started - (w.answered + 1) = 0 by omega]
    exact ⟨⟨Nat.zero_le 1, rfl, fun _ => rfl⟩, fun _ ha => absurd ha List.not_mem_nil, trivial,
      trivial, hscript⟩
  obtain ⟨w', hworks, hleft⟩ := (hnow.move hcarries (fun _ _ => rfl) hover hy).leaveJoin
  obtain ⟨hturn, hrest⟩ := hlater hworks
  have hstory : ((s.answerOnce id answer).keep id (.join [] [] [] :: script)).story
      = (s.keep id (.join [] [] [answer] :: script)).story := by
    rw [hcarries.orderly.story_keep hcarries.worker hy, hpast, hscripts,
      h.carries.orderly.story_keep hw (h.youngest (by omega)),
      Script.invocations_answer (hquiet answer (by simp))]
  have htally : s.tally id = (w.started, w.completed, w.answered) := by simp [tally, hw]
  have hcompleted : w.completed - w.answered = 1 := by omega
  have hanswer : Scheduler.answer id (w.completed - w.answered) [] [answer] s
      = ([], [], s.answerOnce id answer) := by
    rw [hcompleted]
    rfl
  rw [carryOut_join_of_nil htally hanswer]
  exact ⟨hturn, hrest.trans (hleft.trans hstory)⟩

theorem carryOut_join (h : s.Works id w (.join [] queued answers :: script))
    (hlater : ∀ {t : Scheduler} {v : Worker}, t.Works id v script →
      t.Worked id script (carryOut id script t)) :
    s.Worked id (.join [] queued answers :: script)
      (carryOut id (.join [] queued answers :: script) s) := by
  have hle := h.carries.answered_le
  obtain ⟨hone, hall, hused⟩ := h.single.1
  rw [List.length_nil, Nat.add_zero] at hone hall hused
  have htally : s.tally id = (w.started, w.completed, w.answered) := by
    simp [tally, h.carries.worker]
  cases answers with
  | nil =>
    -- Nothing is left of the join.
    rw [List.length_nil] at hall
    obtain rfl : queued = [] := List.length_eq_zero_iff.mp (by omega)
    obtain ⟨w', hworks, hstory⟩ := h.leaveJoin
    obtain ⟨hturn, hrest⟩ := hlater hworks
    have hanswer : answer id (w.completed - w.answered) [] [] s = ([], [], s) := by
      rw [show w.completed - w.answered = 0 by omega]
      rfl
    rw [carryOut_join_of_nil htally hanswer]
    exact ⟨hturn, hrest.trans hstory⟩
  | cons next later =>
    rw [List.length_cons] at hall
    by_cases hanswered : w.answered < w.completed
    · cases queued with
      | nil =>
        obtain rfl : later = [] := List.length_eq_zero_iff.mp (by rw [List.length_nil] at hall; omega)
        exact h.carryOut_last hanswered hlater
      | cons task queued =>
        cases later with
        | nil =>
          rw [List.length_cons, List.length_nil] at hall
          omega
        | cons next' later => exact h.carryOut_next hanswered
    · -- The task in flight has not completed.
      have hanswer : answer id (w.completed - w.answered) queued (next :: later) s
          = (queued, next :: later, s) := by
        rw [show w.completed - w.answered = 0 by omega]
        rfl
      rw [carryOut_join_of_cons htally hanswer rfl]
      exact worked_keep h.inTurn h.kept h.alive rfl

theorem carryOut (h : s.Works id w script) : s.Worked id script (carryOut id script s) := by
  induction script generalizing s w with
  | nil => exact h.finish
  | cons act script ih =>
    cases act with
    | note o =>
      obtain ⟨hnoted, hstory⟩ := h.note
      obtain ⟨hturn, hlater⟩ := ih hnoted
      exact ⟨hturn, hlater.trans hstory⟩
    | giveWay =>
      obtain ⟨hturn, hstory⟩ := h.rest h.single.1 h.single.2.2 Script.invocations_giveWay.symm
      rw [Scheduler.carryOut]
      exact ⟨⟨hturn.single, hturn.line⟩, hstory⟩
    | wait ms =>
      obtain ⟨hturn, hstory⟩ :=
        h.rest h.single.1 h.single.2.2 (Script.invocations_wait ms).symm
      rw [Scheduler.carryOut]
      exact ⟨⟨hturn.single, hturn.line⟩, hstory⟩
    | join started queued answers =>
      cases started with
      | nil => exact h.carryOut_join ih
      | cons task started => exact h.carryOut_start

end Works

/-! ### Places and turns -/

/-- The line stays a line, and nothing is called out of turn. -/
structure Continues (s s' : Scheduler) : Prop where
  inTurn : s'.InTurn
  story : s'.story = s.story

theorem Continues.trans {s'' : Scheduler} (h : s.Continues s') (h' : s'.Continues s'') :
    s.Continues s'' :=
  ⟨h'.inTurn, h'.story.trans h.story⟩

theorem Orderly.continues_goOn {t : Scheduler} (h : s.Orderly none s.resting) (hturn : t.InTurn)
    (hw : s.workers[id]? = some w) (hcalled : w.standing = .called)
    (hworkers : t.workers = s.workers) (hrunner : t.runner = s.runner)
    (hresting : t.resting = s.resting)
    (hother : ∀ i, i ≠ id → t.queue.count i = s.queue.count i) (hid : t.queue.count id = 0) :
    t.Continues (t.goOn id) := by
  have hcarries := h.takeUp hw hcalled hworkers hrunner hresting hother hid
  have hwt : t.workers[id]? = some w := by rw [hworkers, hw]
  have hsame : (t.takeUp id).keep id w.script
      = t.change id fun v => { v with script := w.script, standing := .busy } := by
    simp only [Scheduler.takeUp, keep, Scheduler.change]
    congr 1
    apply Array.ext_getElem?
    intro i
    simp only [Array.getElem?_modify]
    split
    · rw [Option.map_map]
      rfl
    · rfl
  obtain ⟨htaken, hstory⟩ := hturn.change hwt
    (g := fun v => { v with script := w.script, standing := .busy }) rfl rfl rfl rfl
    fun hended => by simp [hcalled] at hended
  rw [← hsame] at htaken hstory
  have hworked := Works.carryOut ⟨hcarries, htaken⟩
  rw [goOn_eq hwt]
  exact ⟨hworked.inTurn, hworked.story.trans hstory⟩

theorem Orderly.continues_foldl_call {ids rest : List Nat} (h : s.Orderly none (ids ++ rest))
    (hturn : s.InTurn) : s.Continues (ids.foldl Scheduler.call s) := by
  induction ids generalizing s with
  | nil => exact ⟨hturn, rfl⟩
  | cons id ids ih =>
    obtain ⟨w, hw, hrests, horderly⟩ := h.call_resting
    obtain ⟨hcalled, hstory⟩ := hturn.call hw (by simp [hrests])
    exact Continues.trans ⟨hcalled, hstory⟩ (ih horderly hcalled)

theorem Orderly.continues_callNext (h : s.Orderly none s.resting) (hturn : s.InTurn) :
    s.Continues s.callNext := by
  unfold Scheduler.callNext
  split
  next hnobody =>
    simp only [Bool.and_eq_true, List.isEmpty_iff] at hnobody
    unfold Scheduler.callDue
    split
    next => exact ⟨hturn, rfl⟩
    next time _ _ _ =>
      have hcalled := (h.due hnobody.1.1 time rfl).continues_foldl_call
        ⟨hturn.single, hturn.line⟩
      exact ⟨hcalled.inTurn, hcalled.story⟩
  next =>
    have horderly : ({ s with gaveWay := [] } : Scheduler).Orderly none
        (s.gaveWay ++ ({ s with gaveWay := [] } : Scheduler).resting) :=
      ⟨⟨h.descends.employer, h.descends.root⟩, h.known, h.fits⟩
    have hcalled := horderly.continues_foldl_call ⟨hturn.single, hturn.line⟩
    exact ⟨hcalled.inTurn, hcalled.story⟩

theorem Orderly.continues_beginTurn (h : s.Orderly none s.resting) (hturn : s.InTurn)
    (hover : s.places = 0 ∨ s.ready = [] ∧ s.called = []) : s.Continues s.beginTurn := by
  have hnext := h.gather.orderly.continues_callNext ⟨hturn.single, hturn.line⟩
  have hready : s.Continues s.nextTurn :=
    ⟨⟨hnext.inTurn.single, hnext.inTurn.line⟩, hnext.story⟩
  have horderly := (h.beginTurn hover).1.orderly
  rw [beginTurn_eq]
  split
  next hforeground =>
    obtain ⟨w, hw, hcalled, hqueued⟩ := horderly.foreground hforeground
    exact hready.trans (horderly.continues_goOn hready.inTurn hw hcalled rfl rfl rfl
      (fun _ _ => rfl) hqueued)
  next => exact hready

/-- However far scripts are carried out, the line stays a line. -/
theorem Orderly.continues_run (n : Nat) (h : s.Orderly none s.resting) (hturn : s.InTurn) :
    s.Continues (Scheduler.run n s) := by
  induction n generalizing s with
  | zero => exact ⟨hturn, rfl⟩
  | succ n ih =>
    have hnewTurn (hover : s.places = 0 ∨ s.ready = [] ∧ s.called = []) :
        s.Continues (if s.beginTurn.isIdle then s.beginTurn else Scheduler.run n s.beginTurn) := by
      have hbegun := h.continues_beginTurn hturn hover
      split
      next => exact hbegun
      next =>
        rcases (h.beginTurn hover).2 with hstep | ⟨hstep, _⟩
        · exact hbegun.trans (ih hstep.orderly hbegun.inTurn)
        · exact hbegun.trans (ih hstep.orderly hbegun.inTurn)
    cases hplaces : s.places with
    | zero =>
      simp only [Scheduler.run, hplaces]
      exact hnewTurn (.inl hplaces)
    | succ places =>
      cases hready : s.ready with
      | cons id ready =>
        obtain ⟨w, hw, hcalled, hother, hid⟩ := h.front places hready
        have hgone := h.continues_goOn (t := { s with places, ready })
          ⟨hturn.single, hturn.line⟩ hw hcalled rfl rfl rfl hother hid
        have hrest := ih (h.goOn_ready places hready).orderly hgone.inTurn
        simp only [Scheduler.run, hplaces, hready]
        exact ⟨hrest.inTurn, hrest.story.trans hgone.story⟩
      | nil =>
        cases hcalled : s.called with
        | cons id ids =>
          have hrest := ih h.gather.orderly ⟨hturn.single, hturn.line⟩
          simp only [Scheduler.run, hplaces, hready, hcalled]
          exact ⟨hrest.inTurn, hrest.story⟩
        | nil =>
          simp only [Scheduler.run, hplaces, hready, hcalled]
          exact hnewTurn (.inr ⟨hready, hcalled⟩)

end Scheduler

/-- The calls of a single script happen in the order of the program. -/
theorem Script.play_invocations (runner : Runner) {script : Script}
    (h : Script.Single script) :
    (play runner script).filterMap (fun r => r.2.invocation?) = script.invocations := by
  have hworker : (Scheduler.beginning runner script).workers[Scheduler.first]?
      = some ⟨script, none, 0, 0, 0, 0, 0, .busy⟩ := rfl
  have hget (i : Nat) (v : Worker) (hv : (Scheduler.beginning runner script).workers[i]? = some v) :
      i = 0 ∧ v = ⟨script, none, 0, 0, 0, 0, 0, .busy⟩ := by
    cases i with
    | zero => exact ⟨rfl, (Option.some.inj hv).symm⟩
    | succ i => simp [Scheduler.beginning] at hv
  have hturn : (Scheduler.beginning runner script).InTurn := by
    constructor
    · intro i v hv
      obtain ⟨_, rfl⟩ := hget i v hv
      exact singleWith_zero.mpr h
    · intro i j v u hij hv hu
      obtain ⟨rfl, _⟩ := hget i v hv
      obtain ⟨rfl, _⟩ := hget j u hu
      omega
  obtain ⟨hcalled, hstory⟩ := hturn.call hworker (by simp)
  obtain ⟨horderly, hbound⟩ := orderly_called runner h.sound
  have hrun := horderly.continues_run (9 * Script.size script) hcalled
  obtain ⟨hidle, hproceeds⟩ := horderly.run hbound
  -- At the end nothing is left to be called.
  have hnothing : Scheduler.outlook (Scheduler.run (9 * Script.size script)
      ((Scheduler.beginning runner script).call Scheduler.first)).scripts = [] := by
    refine Scheduler.outlook_eq_nil ?_
    intro x hx
    obtain ⟨v, hv, rfl⟩ := List.mem_map.mp hx
    obtain ⟨i, hi⟩ := List.mem_iff_getElem?.mp hv
    have hget : (Scheduler.run (9 * Script.size script)
      ((Scheduler.beginning runner script).call Scheduler.first)).workers[i]? = some v := by
      simpa using hi
    exact (hproceeds.orderly.fits i v hget).done (hproceeds.orderly.all_ended hidle hget)
  have htold := hrun.story.trans hstory
  rw [Scheduler.story, hnothing, List.append_nil] at htold
  refine htold.trans ?_
  simp [Scheduler.story, Scheduler.past, Scheduler.scripts, Scheduler.beginning, Scheduler.outlook]

end DocTemplate
