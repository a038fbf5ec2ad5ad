/-
Scripts in other words.

The scheduler looks at where workers give way, wait, and start and join tasks; what they make
known it only passes on.  A script with other words for what it makes known is carried out at
the same times and in the same order, and what happens is told in the other words.

* `Scheduler.carryOut_reword` — carrying out a script, act by act;
* `Scheduler.run_reword` — some steps of the scheduler, by induction on their number;
* `Script.play_reword` — all that happens when a script is carried out;
* `Script.completionOrder_reword` — the order in which tasks complete is the same.
-/
import DocTemplate.Proofs.InTurn

namespace DocTemplate

variable (f : Observation → Observation)

/-! ### Scripts -/

mutual

/-- An act with other words for what it makes known. -/
def Act.reword : Act → Act
  | .note o => .note (f o)
  | .giveWay => .giveWay
  | .wait ms => .wait ms
  | .join started queued answers =>
    .join (rewordAll started) (rewordAll queued) (answers.map (List.map f))

/-- A script with other words for what it makes known. -/
def Script.reword : List Act → List Act
  | [] => []
  | act :: script => act.reword :: Script.reword script

/-- Scripts with other words for what they make known. -/
def rewordAll : List (List Act) → List (List Act)
  | [] => []
  | script :: scripts => Script.reword script :: rewordAll scripts

end

theorem rewordAll_eq (scripts : List Script) :
    rewordAll f scripts = scripts.map (Script.reword f) := by
  induction scripts with
  | nil => rfl
  | cons script scripts ih => rw [rewordAll, ih, List.map_cons]

@[simp] theorem Script.reword_append (s t : Script) :
    Script.reword f (s ++ t) = Script.reword f s ++ Script.reword f t := by
  induction s with
  | nil => rfl
  | cons act s ih => rw [List.cons_append, Script.reword, ih, Script.reword, List.cons_append]

mutual

theorem Act.size_reword : ∀ act : Act, (act.reword f).size = act.size
  | .note _ => rfl
  | .giveWay => rfl
  | .wait _ => rfl
  | .join started queued answers => by
    rw [Act.reword, Act.size, Act.size, totalSize_rewordAll started, totalSize_rewordAll queued,
      List.length_map]

theorem Script.size_reword : ∀ script : List Act,
    Script.size (Script.reword f script) = Script.size script
  | [] => rfl
  | act :: script => by
    rw [Script.reword, Script.size, Script.size, act.size_reword, Script.size_reword script]

theorem totalSize_rewordAll : ∀ scripts : List (List Act),
    totalSize (rewordAll f scripts) = totalSize scripts
  | [] => rfl
  | script :: scripts => by
    rw [rewordAll, totalSize, totalSize, Script.size_reword script, totalSize_rewordAll scripts]

end

/-! ### The scheduler -/

/-- A worker whose script has other words. -/
def Worker.reword (w : Worker) : Worker := { w with script := Script.reword f w.script }

/-- What happens, in other words. -/
def Report.reword : Report → Report
  | .noted o => .noted (f o)
  | .completed employer index => .completed employer index
  | .ended => .ended

namespace Scheduler

variable {s : Scheduler}

/-- A scheduler with other words in the scripts and for what has happened. -/
def reword (s : Scheduler) : Scheduler :=
  { s with
    workers := s.workers.map (Worker.reword f)
    reports := s.reports.map fun (time, report) => (time, report.reword f) }

theorem getElem?_reword (s : Scheduler) (id : Nat) :
    (s.reword f).workers[id]? = s.workers[id]?.map (Worker.reword f) :=
  Array.getElem?_map

theorem workers_reword {id : Nat} {w : Worker} (hw : s.workers[id]? = some w) :
    (s.reword f).workers[id]? = some (w.reword f) := by
  rw [getElem?_reword, hw, Option.map_some]

theorem report_reword (s : Scheduler) (r : Report) :
    (s.reword f).report (r.reword f) = (s.report r).reword f := rfl

theorem change_reword (s : Scheduler) (id : Nat) (g g' : Worker → Worker)
    (h : ∀ w, g' (w.reword f) = (g w).reword f) :
    (s.reword f).change id g' = (s.change id g).reword f := by
  have hworkers : (s.workers.map (Worker.reword f)).modify id g'
      = (s.workers.modify id g).map (Worker.reword f) := by
    apply Array.ext_getElem?
    intro i
    simp only [Array.getElem?_modify, Array.getElem?_map]
    split
    next => cases s.workers[i]? <;> simp [h]
    next => rfl
  simp only [change, reword, hworkers]

theorem call_reword (s : Scheduler) (id : Nat) : (s.reword f).call id = (s.call id).reword f := by
  cases hw : s.workers[id]? with
  | none => simp only [call, getElem?_reword, hw, Option.map_none]
  | some w =>
    have hw' := workers_reword f hw
    by_cases hcalled : w.standing = .called
    · rw [call_of_called hw hcalled, call_of_called hw' hcalled]
    · have hchange := change_reword f s id (fun w => { w with standing := .called })
        (fun w => { w with standing := .called }) fun _ => rfl
      rw [call_eq hw hcalled, call_eq hw' hcalled, hchange]
      show (if s.isForeground id then _ else _) = _
      split <;> rfl

theorem foldl_call_reword (ids : List Nat) (s : Scheduler) :
    ids.foldl call (s.reword f) = (ids.foldl call s).reword f :=
  List.foldl_hom (reword f) fun s id => call_reword f s id

theorem start_reword (s : Scheduler) (employer : Nat) (script : Script) :
    (s.reword f).start employer (Script.reword f script) = (s.start employer script).reword f := by
  cases hw : s.workers[employer]? with
  | none => simp only [start, getElem?_reword, hw, Option.map_none]
  | some w =>
    have hw' := workers_reword f hw
    have hhire : (s.reword f).hire (task employer (w.reword f) (Script.reword f script))
        = (s.hire (task employer w script)).reword f := by
      simp only [hire, reword, Array.map_push, Array.size_map]
      rfl
    rw [start_eq hw, start_eq hw', hhire]
    exact change_reword f _ employer _ _ fun _ => rfl

theorem foldl_start_reword (employer : Nat) (scripts : List Script) (s : Scheduler) :
    (rewordAll f scripts).foldl (fun s task => s.start employer task) (s.reword f)
      = (scripts.foldl (fun s task => s.start employer task) s).reword f := by
  rw [rewordAll_eq, List.foldl_map]
  exact List.foldl_hom (reword f) fun s task => start_reword f s employer task

theorem finish_reword (s : Scheduler) (id : Nat) :
    (s.reword f).finish id = (s.finish id).reword f := by
  cases hw : s.workers[id]? with
  | none => simp only [finish, getElem?_reword, hw, Option.map_none]
  | some w =>
    have hw' := workers_reword f hw
    have hended := change_reword f s id (fun w => { w with standing := .ended })
      (fun w => { w with standing := .ended }) fun _ => rfl
    cases hemployer : w.employer? with
    | none =>
      have hemployer' : (w.reword f).employer? = none := hemployer
      simp only [finish, hw, hw', hemployer, hemployer', hended]
      rfl
    | some task =>
      obtain ⟨e, join⟩ := task
      have hemployer' : (w.reword f).employer? = some (e, join) := hemployer
      simp only [finish, hw, hw', hemployer, hemployer', hended]
      have hreport := report_reword f (s.change id fun w => { w with standing := .ended })
        (.completed e w.index)
      replace hreport : ((s.change id fun w => { w with standing := .ended }).reword f).report
          (.completed e (w.reword f).index) = _ := hreport
      rw [hreport]
      generalize (s.change id fun w => { w with standing := .ended }).report
        (.completed e w.index) = t
      -- Whether the employer still waits is told by the number of its joins.
      have hwaits : (t.reword f).workers[e]?.any (·.joins = join)
          = t.workers[e]?.any (·.joins = join) := by
        rw [getElem?_reword]
        cases t.workers[e]? <;> rfl
      rw [hwaits]
      split
      · rw [← call_reword]
        exact congrArg (call · e) (change_reword f t e _ _ fun _ => rfl)
      · rfl

theorem tally_reword (s : Scheduler) (id : Nat) : (s.reword f).tally id = s.tally id := by
  rw [tally, tally, getElem?_reword]
  cases s.workers[id]? <;> rfl

theorem answerOnce_reword (s : Scheduler) (id : Nat) (answer : List Observation) :
    (s.reword f).answerOnce id (answer.map f) = (s.answerOnce id answer).reword f := by
  have hreports : (answer.map f).foldl (fun s o => s.report (.noted o)) (s.reword f)
      = (answer.foldl (fun s o => s.report (.noted o)) s).reword f := by
    rw [List.foldl_map]
    exact List.foldl_hom (reword f) fun s o => report_reword f s (.noted o)
  rw [answerOnce, hreports]
  exact change_reword f _ id _ _ fun _ => rfl

/-- The answers that a worker makes, and what it starts behind them. -/
theorem answer_reword (id n : Nat) (queued : List Script) (answers : List (List Observation))
    (s : Scheduler) :
    answer id n (rewordAll f queued) (answers.map (List.map f)) (s.reword f)
      = (rewordAll f (answer id n queued answers s).1,
          (answer id n queued answers s).2.1.map (List.map f),
          (answer id n queued answers s).2.2.reword f) := by
  induction n generalizing queued answers s with
  | zero => rfl
  | succ n ih =>
    cases answers with
    | nil => rfl
    | cons now later =>
      have honce := answerOnce_reword f s id now
      cases later with
      | nil =>
        have hrest := ih queued [] (s.answerOnce id now)
        rw [← honce] at hrest
        cases queued <;> exact hrest
      | cons next later =>
        cases queued with
        | nil =>
          have hrest := ih [] (next :: later) (s.answerOnce id now)
          rw [← honce] at hrest
          exact hrest
        | cons task queued =>
          have hrest := ih queued (next :: later) ((s.answerOnce id now).start id task)
          rw [← start_reword, ← honce] at hrest
          exact hrest

theorem carryOut_reword (id : Nat) (script : Script) (s : Scheduler) :
    carryOut id (Script.reword f script) (s.reword f) = (carryOut id script s).reword f := by
  -- A worker goes on with the rest of its script in the state that the first act leaves.
  induction script generalizing s with
  | nil => exact finish_reword f s id
  | cons act script ih =>
    cases act with
    | note o => exact ih (s.report (.noted o))
    | giveWay =>
      exact change_reword f { s with gaveWay := id :: s.gaveWay } id _ _ fun _ => rfl
    | wait ms =>
      exact change_reword f
        { s with waiting := insertWaiting (s.time + ms) id s.waiting } id _ _ fun _ => rfl
    | join started queued answers =>
      rcases htally : s.tally id with ⟨before, completed, answered⟩
      have htally' : (s.reword f).tally id = (before, completed, answered) := by
        rw [tally_reword, htally]
      have hanswers := answer_reword f id (completed - answered) queued answers
        (started.foldl (fun s task => s.start id task) s)
      rw [← foldl_start_reword] at hanswers
      rcases hanswer : answer id (completed - answered) queued answers
        (started.foldl (fun s task => s.start id task) s) with ⟨queued', answers', t⟩
      rw [hanswer] at hanswers
      cases answers' with
      | nil =>
        have hleave : (t.reword f).leaveJoin id = (t.leaveJoin id).reword f :=
          change_reword f t id _ _ fun _ => rfl
        rw [carryOut_join_of_nil htally hanswer, ← ih, ← hleave]
        exact carryOut_join_of_nil htally' hanswers
      | cons next later =>
        have hkeep : (t.reword f).keep id (Script.reword f
              (.join [] queued' (next :: later) :: script))
            = (t.keep id (.join [] queued' (next :: later) :: script)).reword f :=
          change_reword f t id _ _ fun _ => rfl
        have hright := carryOut_join_of_cons htally' hanswers hkeep
        rw [tally_reword] at hright
        rw [carryOut_join_of_cons htally hanswer rfl]
        refine hright.trans ?_
        split
        · exact call_reword f _ id
        · rfl

theorem goOn_reword (s : Scheduler) (id : Nat) : (s.reword f).goOn id = (s.goOn id).reword f := by
  cases hw : s.workers[id]? with
  | none => simp only [goOn, getElem?_reword, hw, Option.map_none]
  | some w =>
    have hw' := workers_reword f hw
    have htake : (s.reword f).takeUp id = (s.takeUp id).reword f :=
      change_reword f s id _ _ fun _ => rfl
    rw [goOn_eq hw, goOn_eq hw', htake]
    exact carryOut_reword f id w.script (s.takeUp id)

theorem foregroundCalled_reword (s : Scheduler) :
    (s.reword f).foregroundCalled = s.foregroundCalled := by
  rw [foregroundCalled, foregroundCalled, getElem?_reword]
  cases s.workers[first]? <;> rfl

theorem callNext_reword (s : Scheduler) : (s.reword f).callNext = s.callNext.reword f := by
  have hdue : (s.reword f).callDue = s.callDue.reword f := by
    have hwaiting : (s.reword f).waiting = s.waiting := rfl
    rw [callDue, callDue, hwaiting]
    cases hs : s.waiting with
    | nil => rfl
    | cons next later =>
      exact foldl_call_reword f _ { s with
        time := next.1
        waiting := (next :: later).drop ((next :: later).takeWhile (·.1 = next.1)).length }
  rw [callNext, callNext, foregroundCalled_reword, hdue]
  show (if s.gaveWay.isEmpty && s.ready.isEmpty && !s.foregroundCalled then _ else _) = _
  split
  · rfl
  · exact foldl_call_reword f s.gaveWay { s with gaveWay := [] }

theorem beginTurn_reword (s : Scheduler) : (s.reword f).beginTurn = s.beginTurn.reword f := by
  have hnext : (s.reword f).nextTurn = s.nextTurn.reword f := by
    have hcall := callNext_reword f s.gather
    rw [nextTurn, nextTurn]
    exact congrArg (fun t : Scheduler => { t with places := turnLength }) hcall
  rw [beginTurn_eq, beginTurn_eq, hnext, foregroundCalled_reword, goOn_reword]
  split <;> rfl

theorem isIdle_reword (s : Scheduler) : (s.reword f).isIdle = s.isIdle := by
  rw [isIdle, isIdle, getElem?_reword]
  cases s.workers[first]? <;> rfl

/-- Step by step the same happens, in other words. -/
theorem run_reword (bound : Nat) (s : Scheduler) :
    Scheduler.run bound (s.reword f) = (Scheduler.run bound s).reword f := by
  induction bound generalizing s with
  | zero => rfl
  | succ n ih =>
    have hturn : (if (s.reword f).beginTurn.isIdle then (s.reword f).beginTurn
          else Scheduler.run n (s.reword f).beginTurn)
        = (if s.beginTurn.isIdle then s.beginTurn else Scheduler.run n s.beginTurn).reword f := by
      rw [beginTurn_reword, isIdle_reword]
      split
      · rfl
      · exact ih s.beginTurn
    -- Who is next is decided by the places and the queue.
    have hsame : (s.reword f).places = s.places ∧ (s.reword f).ready = s.ready
      ∧ (s.reword f).called = s.called := ⟨rfl, rfl, rfl⟩
    cases hplaces : s.places with
    | zero => simpa only [Scheduler.run, hsame, hplaces] using hturn
    | succ places =>
      cases hready : s.ready with
      | cons id ready =>
        have hgo := goOn_reword f { s with places, ready } id
        simp only [Scheduler.run, hsame, hplaces, hready]
        rw [← ih, ← hgo]
        rfl
      | nil =>
        cases hcalled : s.called with
        | cons id ids =>
          simp only [Scheduler.run, hsame, hplaces, hready, hcalled]
          rw [← ih]
          rfl
        | nil => simpa only [Scheduler.run, hsame, hplaces, hready, hcalled] using hturn

end Scheduler

namespace Script

theorem play_reword (runner : Runner) (script : Script) :
    play runner (Script.reword f script)
      = (play runner script).map fun (time, report) => (time, report.reword f) := by
  have hbeginning : Scheduler.beginning runner (Script.reword f script)
      = (Scheduler.beginning runner script).reword f := by
    simp [Scheduler.beginning, Scheduler.reword, Worker.reword]
  rw [play, play, size_reword, hbeginning, Scheduler.call_reword, Scheduler.run_reword]
  exact List.map_reverse.symm

/-- Tasks complete in the same order, whatever they make known. -/
theorem completionOrder_reword (runner : Runner) (started queued : List Script) :
    completionOrder runner (started.map (Script.reword f)) (queued.map (Script.reword f))
      = completionOrder runner started queued := by
  -- The join has empty answers, which stay empty in other words.
  have hanswers : (started.map (Script.reword f) ++ queued.map (Script.reword f)).map
        (fun _ => ([] : List Observation))
      = ((started ++ queued).map fun _ => ([] : List Observation)).map (List.map f) := by
    rw [← List.map_append, List.map_map, List.map_map]
    rfl
  have hjoin : [Act.join (started.map (Script.reword f)) (queued.map (Script.reword f))
        ((started.map (Script.reword f) ++ queued.map (Script.reword f)).map fun _ => [])]
      = Script.reword f [.join started queued ((started ++ queued).map fun _ => [])] := by
    rw [hanswers, ← rewordAll_eq, ← rewordAll_eq]
    rfl
  rw [completionOrder, hjoin, completions, play_reword, List.filterMap_map]
  refine congrArg (List.filterMap · _) (funext fun ⟨time, report⟩ => ?_)
  cases report <;> rfl

end Script

end DocTemplate
