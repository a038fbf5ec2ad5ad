/-
In which order a batch is heard.

Tasks are carried out in turns, and what they make known comes in between.  What only the first
worker makes known comes in the order of its script: what it has said, followed by what it has
still to say, is the same at every step (`Scheduler.tale`).  The accounts of a batch are such a
kind of thing, when its tasks give no accounts under its label.

* `Scheduler.soloist_carryOut` — one stretch of work leaves the tale as it is;
* `Scheduler.goesOn_run` — and so does any number of places and turns;
* `Script.play_told` — what the first worker tells comes in the order of the program;
* `Batch.Completes.played` — a batch as it is carried out: its accounts in order, and the tasks
  that complete.
-/
import DocTemplate.Proofs.Accounts
import DocTemplate.Proofs.InTurn

namespace DocTemplate

/-! ### What scripts tell -/

namespace Script

variable {β : Type} (f : Observation → Option β)

/-- What a script makes known of one kind, in the order of the program. -/
def telling (script : Script) : List β := (Script.notes script).filterMap f

/-- The tasks that the worker of a script starts make nothing known of a kind. -/
def Solo (script : Script) : Prop :=
  ∀ started queued answers, Act.join started queued answers ∈ script →
    ∀ task ∈ started ++ queued, telling f task = []

variable {f} {script : Script} {started queued : List Script} {answers : List (List Observation)}

theorem telling_cons (act : Act) (script : Script) :
    telling f (act :: script) = act.notes.filterMap f ++ telling f script := by
  rw [telling, Script.notes, List.filterMap_append]
  rfl

theorem telling_note (o : Observation) (script : Script) :
    telling f (.note o :: script) = (f o).toList ++ telling f script := by
  rw [telling_cons, Act.notes]
  cases h : f o <;> simp [h]

theorem notes_join (started queued : List Script) (answers : List (List Observation)) :
    (Act.join started queued answers).notes.filterMap f
      = (started ++ queued).flatMap (telling f) ++ answers.flatten.filterMap f := by
  simp only [Act.notes, List.filterMap_append, filterMap_allNotes, List.flatMap_append]
  rfl

/-- Where the tasks tell nothing, a join tells its answers. -/
theorem telling_join (h : ∀ task ∈ started ++ queued, telling f task = [])
    (answers : List (List Observation)) (script : Script) :
    telling f (.join started queued answers :: script)
      = answers.flatten.filterMap f ++ telling f script := by
  have hnone : (started ++ queued).flatMap (telling f) = [] :=
    List.flatMap_eq_nil_iff.mpr h
  rw [telling_cons, notes_join, hnone, List.nil_append]

/-- A script that tells nothing has no tasks that do. -/
theorem solo_of_telling_eq_nil (h : telling f script = []) : script.Solo f := by
  intro started queued answers hmem task htask
  induction script with
  | nil => simp at hmem
  | cons act script ih =>
    rw [telling_cons, List.append_eq_nil_iff] at h
    rcases List.mem_cons.mp hmem with rfl | hmem
    · rw [notes_join, List.append_eq_nil_iff, List.flatMap_eq_nil_iff] at h
      exact h.1.1 task htask
    · exact ih h.2 hmem

theorem Solo.tail {act : Act} (h : Solo f (act :: script)) : script.Solo f :=
  fun started queued answers hmem => h started queued answers (List.mem_cons_of_mem _ hmem)

theorem Solo.tasks (h : Solo f (.join started queued answers :: script)) :
    ∀ task ∈ started ++ queued, telling f task = [] :=
  h started queued answers List.mem_cons_self

theorem Solo.join (h : script.Solo f) (htasks : ∀ task ∈ started ++ queued, telling f task = [])
    (answers : List (List Observation)) : Solo f (.join started queued answers :: script) := by
  intro started' queued' answers' hmem
  rcases List.mem_cons.mp hmem with heq | hmem
  · obtain ⟨rfl, rfl, rfl⟩ := Act.join.inj heq
    exact htasks
  · exact h started' queued' answers' hmem

end Script

/-! ### The tale of the first worker -/

namespace Scheduler

variable {β : Type} (f : Observation → Option β)

/-- What has been made known of one kind, in order. -/
def said (s : Scheduler) : List β :=
  s.reports.reverse.filterMap fun r => r.2.observation?.bind f

/-- What the first of some workers has still to make known. -/
def toSay (scripts : List Script) : List β := (scripts[first]?.map (Script.telling f)).getD []

/-- What has been made known, followed by what the first worker has still to make known. -/
def tale (s : Scheduler) : List β := s.said f ++ toSay f s.scripts

/-- Of some workers nobody but the first has something to make known. -/
def Soloist (scripts : List Script) : Prop :=
  ∀ i script, scripts[i]? = some script → script.Solo f ∧ (i ≠ first → script.telling f = [])

variable {f} {s s' t : Scheduler} {id : Nat} {w : Worker} {script script' : Script}

/-- Work has been done, and the tale is the same. -/
structure GoesOn (f : Observation → Option β) (s s' : Scheduler) : Prop where
  soloist : Soloist f s'.scripts
  tale : s'.tale f = s.tale f

theorem GoesOn.refl (h : Soloist f s.scripts) : GoesOn f s s := ⟨h, rfl⟩

theorem GoesOn.trans {s'' : Scheduler} (h : GoesOn f s s') (h' : GoesOn f s' s'') :
    GoesOn f s s'' :=
  ⟨h'.soloist, h'.tale.trans h.tale⟩

/-- Where scripts and reports stay, so does the tale. -/
theorem GoesOn.of_same (h : Soloist f s.scripts) (hscripts : s'.scripts = s.scripts)
    (hsaid : s'.said f = s.said f) : GoesOn f s s' := by
  refine ⟨hscripts ▸ h, ?_⟩
  rw [Scheduler.tale, hscripts, hsaid]
  rfl

theorem toSay_set_first {scripts : List Script} (h : first < scripts.length) (script : Script) :
    toSay f (scripts.set first script) = script.telling f := by
  rw [toSay, List.getElem?_set_self h]
  rfl

theorem toSay_set_of_ne (h : id ≠ first) (scripts : List Script) (script : Script) :
    toSay f (scripts.set id script) = toSay f scripts := by
  rw [toSay, List.getElem?_set_ne h]
  rfl

theorem toSay_append {scripts : List Script} (h : first < scripts.length) (tasks : List Script) :
    toSay f (scripts ++ tasks) = toSay f scripts := by
  rw [toSay, List.getElem?_append_left h]
  rfl

/-- A worker makes some of its script known, and starts tasks that tell nothing. -/
theorem Soloist.advance {scripts : List Script} {told : List β}
    (h : Soloist f (scripts.set id script)) (hid : id < scripts.length) (tasks : List Script)
    (htold : script.telling f = told ++ script'.telling f) (hsolo : script'.Solo f)
    (htasks : ∀ task ∈ tasks, task.telling f = []) :
    Soloist f ((scripts ++ tasks).set id script')
      ∧ told ++ toSay f ((scripts ++ tasks).set id script') = toSay f (scripts.set id script) := by
  have hfirst : first < scripts.length := by
    rw [first]
    omega
  -- A worker who is not the first has nothing to tell, before and afterwards.
  have hother (hne : id ≠ first) : told = [] ∧ script'.telling f = [] := by
    have hsilent := (h id script (List.getElem?_set_self hid)).2 hne
    rw [htold] at hsilent
    exact List.append_eq_nil_iff.mp hsilent
  rw [List.set_append_left _ _ hid]
  constructor
  · intro i x hx
    by_cases hi : i < scripts.length
    · rw [List.getElem?_append_left (by simpa using hi)] at hx
      by_cases hsame : id = i
      · subst hsame
        rw [List.getElem?_set_self hid] at hx
        obtain rfl := Option.some.inj hx
        exact ⟨hsolo, fun hne => (hother hne).2⟩
      · rw [List.getElem?_set_ne hsame] at hx
        exact h i x (by rw [List.getElem?_set_ne hsame, hx])
    · rw [List.getElem?_append_right (by simpa using hi)] at hx
      have hsilent := htasks x (List.mem_of_getElem? hx)
      exact ⟨Script.solo_of_telling_eq_nil hsilent, fun _ => hsilent⟩
  · rw [toSay_append (by simpa using hfirst)]
    by_cases hsame : id = first
    · subst hsame
      rw [toSay_set_first hid, toSay_set_first hid, htold]
    · rw [toSay_set_of_ne hsame, toSay_set_of_ne hsame, (hother hsame).1, List.nil_append]

/-! ### Stretches of work -/

theorem said_report (s : Scheduler) (r : Report) :
    (s.report r).said f = s.said f ++ (r.observation?.bind f).toList := by
  cases hr : r.observation?.bind f <;> simp [said, report, hr]

theorem said_answerOnce (s : Scheduler) (id : Nat) (answer : List Observation) :
    (s.answerOnce id answer).said f = s.said f ++ answer.filterMap f := by
  have hnoted : (answer.map fun o => (s.time, Report.noted o)).filterMap
      (fun r => r.2.observation?.bind f) = answer.filterMap f := by
    rw [List.filterMap_map]
    rfl
  unfold answerOnce
  rw [foldl_report]
  show List.filterMap _ (_ ++ s.reports).reverse = _
  rw [List.reverse_append, List.reverse_reverse, List.filterMap_append, hnoted]
  rfl

theorem scripts_answerOnce (hw : s.workers[id]? = some w) (answer : List Observation) :
    (s.answerOnce id answer).scripts = s.scripts := by
  unfold answerOnce
  rw [foldl_report]
  exact scripts_change_of_eq (s := { s with reports := _ }) hw rfl

theorem exists_worker (h : s.scripts[id]? = some script) :
    ∃ w, s.workers[id]? = some w ∧ w.script = script := by
  rw [getElem?_scripts] at h
  exact Option.map_eq_some_iff.mp h

theorem same_call (s : Scheduler) (id : Nat) :
    (s.call id).scripts = s.scripts ∧ (s.call id).said f = s.said f := by
  unfold call
  cases hw : s.workers[id]? with
  | none => exact ⟨rfl, rfl⟩
  | some w =>
    have hchange : (s.change id fun w => { w with standing := .called }).scripts = s.scripts :=
      scripts_change_of_eq hw rfl
    simp only
    split
    · exact ⟨rfl, rfl⟩
    · split
      · exact ⟨hchange, rfl⟩
      · exact ⟨hchange, rfl⟩

theorem same_finish (s : Scheduler) (id : Nat) :
    (s.finish id).scripts = s.scripts ∧ (s.finish id).said f = s.said f := by
  unfold finish
  cases hw : s.workers[id]? with
  | none => exact ⟨rfl, rfl⟩
  | some w =>
    have hended : (s.change id fun w => { w with standing := .ended }).scripts = s.scripts :=
      scripts_change_of_eq hw rfl
    cases hemployer : w.employer? with
    | none =>
      simp only [hemployer]
      refine ⟨hended, ?_⟩
      rw [said_report]
      exact List.append_nil _
    | some employer =>
      obtain ⟨e, join⟩ := employer
      let u := (s.change id fun w => { w with standing := .ended }).report (.completed e w.index)
      have hsaid : u.said f = s.said f := (said_report _ _).trans (List.append_nil _)
      simp only [hemployer]
      split
      next hwaits =>
        cases hv : u.workers[e]? with
        | none => exact absurd hwaits (by simp [u, hv])
        | some v =>
          obtain ⟨hscripts, hcall⟩ := same_call (f := f)
            (u.change e fun v => { v with completed := v.completed + 1 }) e
          exact ⟨hscripts.trans ((scripts_change_of_eq hv rfl).trans hended), hcall.trans hsaid⟩
      next => exact ⟨hended, hsaid⟩

theorem same_starts (hid : s.scripts[id]? = some script) (tasks : List Script) :
    (tasks.foldl (fun s task => s.start id task) s).scripts = s.scripts ++ tasks
      ∧ (tasks.foldl (fun s task => s.start id task) s).said f = s.said f := by
  induction tasks generalizing s with
  | nil => exact ⟨(List.append_nil _).symm, rfl⟩
  | cons task tasks ih =>
    obtain ⟨w, hw, -⟩ := exists_worker hid
    have hstart := scripts_start hw task
    have hsaid : (s.start id task).said f = s.said f := by
      rw [start_eq hw]
      rfl
    have hthere : (s.start id task).scripts[id]? = some script := by
      rw [hstart, List.getElem?_append_left (List.getElem?_eq_some_iff.mp hid).1, hid]
    obtain ⟨hscripts, hlater⟩ := ih hthere
    rw [hstart, List.append_assoc] at hscripts
    exact ⟨hscripts, hlater.trans hsaid⟩

/-- Answers are made known in order, and the tasks that are started then were queued. -/
theorem same_answer (n : Nat) (hid : s.scripts[id]? = some script) (queued : List Script)
    (answers : List (List Observation)) {queued' : List Script}
    {answers' : List (List Observation)} (h : answer id n queued answers s = (queued', answers', t)) :
    ∃ made tasks, answers = made ++ answers' ∧ queued = tasks ++ queued'
      ∧ t.said f = s.said f ++ made.flatten.filterMap f ∧ t.scripts = s.scripts ++ tasks := by
  induction n generalizing s queued answers with
  | zero =>
    obtain ⟨rfl, rfl, rfl⟩ : queued = queued' ∧ answers = answers' ∧ s = t := by
      simpa [answer] using h
    exact ⟨[], [], rfl, rfl, (List.append_nil _).symm, (List.append_nil _).symm⟩
  | succ n ih =>
    cases answers with
    | nil =>
      obtain ⟨rfl, rfl, rfl⟩ : queued = queued' ∧ [] = answers' ∧ s = t := by
        simpa [answer] using h
      exact ⟨[], [], rfl, rfl, (List.append_nil _).symm, (List.append_nil _).symm⟩
    | cons first later =>
      obtain ⟨w, hw, -⟩ := exists_worker hid
      have hscripts := scripts_answerOnce hw first
      have hsaid := said_answerOnce (f := f) s id first
      have hthere : (s.answerOnce id first).scripts[id]? = some script := by rw [hscripts, hid]
      -- With or without a task that is started behind it, the answer comes first.
      have hanswered (tasks : List Script) {u : Scheduler} {rest : List Script}
          (hu : u.scripts[id]? = some script)
          (husaid : u.said f = (s.answerOnce id first).said f)
          (huscripts : u.scripts = s.scripts ++ tasks)
          (hrest : answer id n rest later u = (queued', answers', t)) :
          ∃ made tasks', first :: later = made ++ answers' ∧ tasks ++ rest = tasks' ++ queued'
            ∧ t.said f = s.said f ++ made.flatten.filterMap f ∧ t.scripts = s.scripts ++ tasks' := by
        obtain ⟨made, more, rfl, rfl, hmade, hmore⟩ := ih hu rest later hrest
        refine ⟨first :: made, tasks ++ more, rfl, (List.append_assoc _ _ _).symm, ?_, ?_⟩
        · rw [hmade, husaid, hsaid, List.flatten_cons, List.filterMap_append, List.append_assoc]
        · rw [hmore, huscripts, List.append_assoc]
      cases queued with
      | nil => exact hanswered [] hthere rfl (hscripts.trans (List.append_nil _).symm) h
      | cons task queued =>
        cases later with
        | nil => exact hanswered [] hthere rfl (hscripts.trans (List.append_nil _).symm) h
        | cons next later =>
          obtain ⟨hstarted, hquiet⟩ := same_starts (f := f) hthere [task]
          rw [hscripts] at hstarted
          have hgone : ((s.answerOnce id first).start id task).scripts[id]? = some script := by
            rw [show ((s.answerOnce id first).start id task).scripts = s.scripts ++ [task] from
              hstarted, List.getElem?_append_left (List.getElem?_eq_some_iff.mp hid).1, hid]
          exact hanswered [task] hgone hquiet hstarted h

/-- A worker starts the tasks of a join and makes the answers that are due: the tale goes on with
whatever tells the other answers and what is behind the join. -/
theorem Soloist.join {n : Nat} {started queued queued' : List Script}
    {answers answers' : List (List Observation)}
    (h : Soloist f (s.scripts.set id (.join started queued answers :: script)))
    (hid : s.scripts[id]? = some [])
    (hanswer : answer id n queued answers (started.foldl (fun s task => s.start id task) s)
      = (queued', answers', t)) :
    t.scripts[id]? = some [] ∧ (∀ task ∈ queued', Script.telling f task = [])
      ∧ ∀ later : Script, later.Solo f →
          answers'.flatten.filterMap f ++ Script.telling f script = Script.telling f later →
            Soloist f (t.scripts.set id later)
              ∧ t.said f ++ toSay f (t.scripts.set id later) = s.said f
                ++ toSay f (s.scripts.set id (.join started queued answers :: script)) := by
  have hlt : id < s.scripts.length := (List.getElem?_eq_some_iff.mp hid).1
  obtain ⟨hstarted, hquiet⟩ := same_starts (f := f) hid started
  have hthere : (started.foldl (fun s task => s.start id task) s).scripts[id]? = some [] := by
    rw [hstarted, List.getElem?_append_left hlt, hid]
  obtain ⟨made, tasks, rfl, rfl, hmade, hscripts⟩ :=
    same_answer (f := f) n hthere queued answers hanswer
  rw [hquiet] at hmade
  rw [hstarted, List.append_assoc] at hscripts
  have hsilent := (h id _ (List.getElem?_set_self hlt)).1.tasks
  have hnew : ∀ task ∈ started ++ tasks, Script.telling f task = [] := by
    intro task htask
    refine hsilent task ?_
    rw [← List.append_assoc]
    exact List.mem_append_left _ htask
  refine ⟨?_, ?_, ?_⟩
  · rw [hscripts, List.getElem?_append_left hlt, hid]
  · intro task htask
    exact hsilent task (List.mem_append_right _ (List.mem_append_right _ htask))
  · intro later hlater htells
    have htold : Script.telling f (.join started (tasks ++ queued') (made ++ answers') :: script)
        = made.flatten.filterMap f ++ Script.telling f later := by
      rw [Script.telling_join hsilent, List.flatten_append, List.filterMap_append,
        List.append_assoc, htells]
    have hadvance := h.advance hlt (started ++ tasks) htold hlater hnew
    rw [← hscripts] at hadvance
    rw [hmade, List.append_assoc, hadvance.2]
    exact ⟨hadvance.1, rfl⟩

/-- A worker carries out a script, as far as it can go, and the tale of the first worker stays
the same. -/
theorem soloist_carryOut (hid : s.scripts[id]? = some [])
    (h : Soloist f (s.scripts.set id script)) :
    Soloist f (carryOut id script s).scripts
      ∧ (carryOut id script s).tale f = s.said f ++ toSay f (s.scripts.set id script) := by
  induction script generalizing s with
  | nil =>
    obtain ⟨hscripts, hsaid⟩ := same_finish (f := f) s id
    obtain ⟨hlt, hget⟩ := List.getElem?_eq_some_iff.mp hid
    have hset : s.scripts.set id [] = s.scripts := by
      rw [← hget]
      exact List.set_getElem_self hlt
    rw [carryOut, tale, hscripts, hsaid, hset]
    exact ⟨hset ▸ h, rfl⟩
  | cons act script ih =>
    have hlt : id < s.scripts.length := (List.getElem?_eq_some_iff.mp hid).1
    have hsolo := (h id _ (List.getElem?_set_self hlt)).1
    -- A worker that rests keeps the rest of its script.
    have hrest (hnotes : act.notes = []) : Soloist f (s.scripts.set id script)
        ∧ toSay f (s.scripts.set id script) = toSay f (s.scripts.set id (act :: script)) := by
      have htold : Script.telling f (act :: script) = [] ++ Script.telling f script := by
        rw [Script.telling_cons, hnotes]
        rfl
      have hadvance := h.advance hlt [] htold hsolo.tail (List.forall_mem_nil _)
      rwa [List.append_nil] at hadvance
    obtain ⟨w, hw, -⟩ := exists_worker hid
    cases act with
    | note o =>
      have hadvance := h.advance hlt [] (Script.telling_note o script) hsolo.tail
        (List.forall_mem_nil _)
      rw [List.append_nil] at hadvance
      obtain ⟨hsoloist, htale⟩ := ih (s := s.report (.noted o)) hid hadvance.1
      rw [carryOut]
      refine ⟨hsoloist, ?_⟩
      rw [htale, said_report, List.append_assoc]
      exact congrArg _ hadvance.2
    | giveWay =>
      obtain ⟨hsoloist, hsay⟩ := hrest rfl
      have hscripts : (carryOut id (.giveWay :: script) s).scripts = s.scripts.set id script := by
        rw [carryOut]
        exact scripts_change (s := { s with gaveWay := id :: s.gaveWay }) hw _
      rw [tale, hscripts, hsay]
      exact ⟨hsoloist, rfl⟩
    | wait ms =>
      obtain ⟨hsoloist, hsay⟩ := hrest rfl
      have hscripts : (carryOut id (.wait ms :: script) s).scripts = s.scripts.set id script := by
        rw [carryOut]
        exact scripts_change (s := { s with waiting := _ }) hw _
      rw [tale, hscripts, hsay]
      exact ⟨hsoloist, rfl⟩
    | join started queued answers =>
      obtain ⟨before, completed, answered, htally⟩ :
          ∃ before completed answered, s.tally id = (before, completed, answered) := ⟨_, _, _, rfl⟩
      obtain ⟨queued', answers', t, hanswer⟩ : ∃ queued' answers' t,
          answer id (completed - answered) queued answers
            (started.foldl (fun s task => s.start id task) s) = (queued', answers', t) :=
        ⟨_, _, _, rfl⟩
      obtain ⟨hthere, hqueued, hlater⟩ := h.join hid hanswer
      obtain ⟨v, hv, -⟩ := exists_worker hthere
      cases answers' with
      | nil =>
        have hleft : (t.leaveJoin id).scripts = t.scripts := scripts_change_of_eq hv rfl
        obtain ⟨hsoloist, hsay⟩ := hlater script hsolo.tail rfl
        rw [← hleft] at hsoloist hsay hthere
        obtain ⟨hdone, htale⟩ := ih hthere hsoloist
        rw [carryOut_join_of_nil htally hanswer]
        exact ⟨hdone, htale.trans hsay⟩
      | cons next later =>
        obtain ⟨hsoloist, hsay⟩ := hlater (.join [] queued' (next :: later) :: script)
          (hsolo.tail.join hqueued _) (Script.telling_join hqueued _ _).symm
        obtain ⟨u, hu⟩ : ∃ u, t.keep id (.join [] queued' (next :: later) :: script) = u := ⟨_, rfl⟩
        have hkept : u.scripts = t.scripts.set id (.join [] queued' (next :: later) :: script) := by
          rw [← hu]
          exact scripts_change hv _
        have hsaid : u.said f = t.said f := by
          rw [← hu]
          rfl
        obtain ⟨hcalled, hcall⟩ := same_call (f := f) u id
        rw [← hkept, ← hsaid] at hsay
        rw [← hkept] at hsoloist
        rw [carryOut_join_of_cons htally hanswer hu]
        split
        · rw [tale, hcalled, hcall]
          exact ⟨hsoloist, hsay⟩
        · exact ⟨hsoloist, hsay⟩

/-! ### Places and turns -/

theorem goesOn_goOn (h : Soloist f s.scripts) (id : Nat) : GoesOn f s (s.goOn id) := by
  unfold goOn
  cases hw : s.workers[id]? with
  | none => exact .refl h
  | some w =>
    let t := s.change id fun w => { w with script := [], standing := .busy }
    have hscripts : t.scripts = s.scripts.set id [] := scripts_change hw _
    have hget : s.scripts[id]? = some w.script := by
      rw [getElem?_scripts, hw]
      rfl
    obtain ⟨hlt, hget⟩ := List.getElem?_eq_some_iff.mp hget
    have hwhole : t.scripts.set id w.script = s.scripts := by
      rw [hscripts, List.set_set, ← hget, List.set_getElem_self]
    have hempty : t.scripts[id]? = some [] := by
      rw [hscripts, List.getElem?_set_self hlt]
    have hall : Soloist f (t.scripts.set id w.script) := hwhole ▸ h
    obtain ⟨hsoloist, htale⟩ := soloist_carryOut hempty hall
    rw [hwhole] at htale
    exact ⟨hsoloist, htale⟩

theorem goesOn_foldl_call (h : Soloist f s.scripts) (ids : List Nat) :
    GoesOn f s (ids.foldl call s) := by
  induction ids generalizing s with
  | nil => exact .refl h
  | cons id ids ih =>
    obtain ⟨hscripts, hsaid⟩ := same_call (f := f) s id
    have hcalled : GoesOn f s (s.call id) := .of_same h hscripts hsaid
    exact hcalled.trans (ih hcalled.soloist)

theorem goesOn_callNext (h : Soloist f s.scripts) : GoesOn f s s.callNext := by
  unfold callNext
  split
  · unfold callDue
    split
    · exact .refl h
    next time _ _ _ =>
      let due := s.waiting.takeWhile (·.1 = time)
      have hsame : GoesOn f s { s with time, waiting := s.waiting.drop due.length } :=
        .of_same h rfl rfl
      exact hsame.trans (goesOn_foldl_call hsame.soloist _)
  · have hsame : GoesOn f s { s with gaveWay := [] } := .of_same h rfl rfl
    exact hsame.trans (goesOn_foldl_call hsame.soloist _)

theorem goesOn_beginTurn (h : Soloist f s.scripts) : GoesOn f s s.beginTurn := by
  have hgather : GoesOn f s s.gather := .of_same h rfl rfl
  have hnext := hgather.trans (goesOn_callNext hgather.soloist)
  have hready : GoesOn f s s.nextTurn := hnext.trans (.of_same hnext.soloist rfl rfl)
  rw [beginTurn_eq]
  split
  · exact hready.trans (goesOn_goOn hready.soloist first)
  · exact hready

/-- However far scripts are carried out, the tale of the first worker stays the same. -/
theorem goesOn_run (n : Nat) (h : Soloist f s.scripts) : GoesOn f s (run n s) := by
  induction n generalizing s with
  | zero => exact .refl h
  | succ n ih =>
    have hnewTurn : GoesOn f s (if s.beginTurn.isIdle then s.beginTurn else run n s.beginTurn) := by
      have hbegun := goesOn_beginTurn h
      split
      · exact hbegun
      · exact hbegun.trans (ih hbegun.soloist)
    cases hplaces : s.places with
    | zero =>
      simp only [run, hplaces]
      exact hnewTurn
    | succ places =>
      cases hready : s.ready with
      | cons id ready =>
        have hsame : GoesOn f s { s with places, ready } := .of_same h rfl rfl
        have hgone := hsame.trans (goesOn_goOn hsame.soloist id)
        simp only [run, hplaces, hready]
        exact hgone.trans (ih hgone.soloist)
      | nil =>
        cases hcalled : s.called with
        | cons id ids =>
          have hsame : GoesOn f s s.gather := .of_same h rfl rfl
          simp only [run, hplaces, hready, hcalled]
          exact hsame.trans (ih hsame.soloist)
        | nil =>
          simp only [run, hplaces, hready, hcalled]
          exact hnewTurn

end Scheduler

/-- What only the first worker makes known comes in the order of its script. -/
theorem Script.play_told {β : Type} {f : Observation → Option β} (runner : Runner)
    {script : Script} (h : Script.Sound script) (hsolo : script.Solo f) :
    (play runner script).filterMap (fun r => r.2.observation?.bind f) = script.telling f := by
  obtain ⟨hscripts, hsaid⟩ :=
    Scheduler.same_call (f := f) (Scheduler.beginning runner script) Scheduler.first
  have hsoloist : Scheduler.Soloist f
      ((Scheduler.beginning runner script).call Scheduler.first).scripts := by
    intro i x hx
    rw [hscripts] at hx
    obtain ⟨rfl, rfl⟩ : i = Scheduler.first ∧ script = x := by
      cases i with
      | zero => exact ⟨rfl, Option.some.inj hx⟩
      | succ i => simp [Scheduler.scripts, Scheduler.beginning] at hx
    exact ⟨hsolo, fun hne => absurd rfl hne⟩
  obtain ⟨horderly, hbound⟩ := orderly_called runner h
  obtain ⟨hidle, hproceeds⟩ := horderly.run hbound
  have htale := (Scheduler.goesOn_run (9 * Script.size script) hsoloist).tale
  -- In the end the first worker has nothing more to say.
  have hnothing : Scheduler.toSay f (Scheduler.run (9 * Script.size script)
      ((Scheduler.beginning runner script).call Scheduler.first)).scripts = [] := by
    rw [Scheduler.toSay, Scheduler.getElem?_scripts]
    cases hw : (Scheduler.run (9 * Script.size script)
        ((Scheduler.beginning runner script).call Scheduler.first)).workers[Scheduler.first]? with
    | none => rfl
    | some w =>
      have hended := hproceeds.orderly.all_ended hidle hw
      have hdone : w.script = [] := (hproceeds.orderly.fits _ w hw).done hended
      simp [hdone, telling, Script.notes]
  rw [Scheduler.tale, hnothing, List.append_nil, Scheduler.tale, hscripts, hsaid] at htale
  exact htale

/-! ### Batches -/

/-- The account that an observation gives under a label. -/
def Observation.accountOf? (label : String) : Observation → Option Progress
  | .progressed p => if p.label = label then some p else none
  | _ => none

namespace Batch

open Join

variable {α : Type} {b : Batch α} {order : List Nat}

theorem label_of_mem_events (h : b.Completes order) (policy : Policy) {p : Progress}
    (hp : p ∈ b.events (b.joinedAlong policy order).2) : p.label = b.label := by
  obtain ⟨heard, ⟨_, _, k, moves, hk, hfinishes⟩, _⟩ := h.heard policy
  rw [events_eq, hfinishes] at hp
  split at hp
  · obtain ⟨n, hn⟩ := List.mem_iff_getElem?.mp hp
    obtain ⟨i, index, outcome, _, _, _, _, rfl⟩ := hk.getElem?_finishes hn
    rfl
  · simp at hp

/-- What a batch answers under its label are its accounts. -/
theorem filterMap_answers (h : b.Completes order) (policy : Policy) :
    ((b.joinedAlong policy order).2.filterMap b.answer?).flatten.filterMap
        (Observation.accountOf? b.label)
      = b.events (b.joinedAlong policy order).2 := by
  have hlabelled : (b.events (b.joinedAlong policy order).2).filter (·.label = b.label)
      = b.events (b.joinedAlong policy order).2 := by
    refine List.filter_eq_self.mpr ?_
    intro p hp
    simpa using label_of_mem_events h policy hp
  rw [← hlabelled, events, List.filter_filterMap]
  congr 1
  funext o
  cases o with
  | progressed p => simp [Observation.accountOf?, Option.filter]
  | invoked | noted | gaveWay | logged => rfl

/-- A batch as anybody carries it out: when its tasks give no accounts under its label, the
accounts under the label come in the order of its moves, and the tasks that complete are those
that it starts. -/
theorem Completes.played (h : b.Completes order) (policy : Policy)
    (hsound : ∀ task ∈ b.tasks, Script.Sound task.script)
    (hsilent : ∀ task ∈ b.tasks, task.script.telling (Observation.accountOf? b.label) = [])
    (runner : Runner) :
    (Script.play runner (b.runAlong policy order).script).filterMap
        (fun r => r.2.observation?.bind (Observation.accountOf? b.label))
      = b.events (b.joinedAlong policy order).2
      ∧ (Script.completions runner (b.runAlong policy order).script).Perm
          (Move.starts (b.joinedAlong policy order).2) := by
  refine ⟨?_, h.perm_completions policy hsound runner⟩
  have hscript := (h.sound_script policy hsound).1
  have hquiet : ∀ script ∈ (b.tasks.map Timed.script).take
      ((b.joinedAlong policy order).2.countP Move.isStart),
        script.telling (Observation.accountOf? b.label) = [] := by
    intro script hmem
    obtain ⟨task, htask, rfl⟩ := List.mem_map.mp (List.mem_of_mem_take hmem)
    exact hsilent task htask
  -- The tasks of the join are among those of the batch.
  have hjoin : (b.runAlong policy order).script = b.script (b.joinedAlong policy order).2 := rfl
  rw [hjoin, script] at hscript ⊢
  generalize (b.tasks.map Timed.script).take _ = scripts at hquiet hscript ⊢
  have hparts : ∀ task ∈ scripts.take b.places ++ scripts.drop b.places,
      task.telling (Observation.accountOf? b.label) = [] := by
    rw [List.take_append_drop]
    exact hquiet
  have hsolo : Script.Solo (Observation.accountOf? b.label) [.join (scripts.take b.places)
      (scripts.drop b.places) ((b.joinedAlong policy order).2.filterMap b.answer?)] :=
    Script.Solo.join (fun _ _ _ hmem => by simp at hmem) hparts _
  rw [Script.play_told runner hscript hsolo, Script.telling_join hparts,
    filterMap_answers h policy]
  exact List.append_nil _

end Batch

end DocTemplate
