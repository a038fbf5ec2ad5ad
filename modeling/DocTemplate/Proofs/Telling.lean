/-
What a run tells its observer.

An *account* is what is left of a progress report when the counters are dropped that
hang on the order of completion.  A run that succeeds *tells* some accounts when its
script can be carried out to the end and the reports in it, up to their order, have these
accounts (`Run.Tells`).  Runs that are put together from others tell what these tell:

* `Run.Tells.bind` — one run after another;
* `Run.MayTell` — the same of a run that may fail;
* `Batch.tells_collectAlong` — a batch tells what its tasks tell, and one account for
  every task, whatever the ceiling and whatever the order of completion;
* `Run.Tells.heard` — what is told is heard, once each, when the run is carried out.
-/
import DocTemplate.Proofs.Accounts
import DocTemplate.Proofs.Course
import Mathlib.Data.List.Perm.Basic

namespace DocTemplate

/-- What a report on a task tells of the task and its batch. -/
structure Account where
  label : String
  index : Nat
  succeeded : Bool
  value : Option Json
  total : Nat
  deriving DecidableEq, Repr

/-- The accounts of tasks that have succeeded, one for each of the values they give. -/
def Account.ofValues (label : String) (values : List (Option Json)) : List Account :=
  values.mapIdx fun i value => ⟨label, i, true, value, values.length⟩

/-- A report without its counters. -/
def Progress.account (p : Progress) : Account := ⟨p.label, p.index, p.succeeded, p.value, p.total⟩

/-- The account that an observer is given by an observation. -/
def Observation.account? : Observation → Option Account
  | .progressed p => some p.account
  | _ => none

/-! ### Scripts -/

namespace Script

/-- The accounts in a script, in the order of the program. -/
def accounts (s : Script) : List Account := (Script.notes s).filterMap Observation.account?

@[simp] theorem accounts_nil : accounts [] = [] := rfl

@[simp] theorem accounts_append (s t : Script) : accounts (s ++ t) = accounts s ++ accounts t := by
  rw [accounts, notes_append, List.filterMap_append]
  rfl

theorem accounts_join (started queued : List Script) (answers : List (List Observation)) :
    accounts [.join started queued answers]
      = (started ++ queued).flatMap accounts
        ++ answers.flatten.filterMap Observation.account? := by
  simp only [accounts, Script.notes, Act.notes, List.append_nil, List.filterMap_append,
    filterMap_allNotes, List.flatMap_append]
  rfl

end Script

/-! ### Runs -/

namespace Run

variable {α β : Type}

/-- A run succeeds with a value, and tells some accounts on the way. -/
structure Tells (r : Run α) (a : α) (told : List Account) : Prop where
  result : r.result = .ok a
  /-- It can be carried out to its end. -/
  sound : Script.Sound r.timed.script
  told : r.timed.script.accounts.Perm told

/-- What the observer hears when a run is carried out in the foreground. -/
def heard (r : Run α) : List Account :=
  r.timed.chronicle.filterMap (·.observation.account?)

namespace Tells

theorem pure (a : α) : Tells (Pure.pure a) a [] := ⟨rfl, trivial, .refl _⟩

theorem note {o : Observation} (h : o.account? = none) : (Run.note o).Tells () [] := by
  refine ⟨rfl, ⟨trivial, trivial⟩, ?_⟩
  have haccounts : Script.accounts [.note o] = [] := by
    simp [Script.accounts, Script.notes, Act.notes, h]
  exact haccounts ▸ .refl _

theorem log (n : Notice) : (Run.log n).Tells () [] := note rfl

theorem ofExcept {r : Except Error α} {a : α} (h : r = .ok a) : (Run.ofExcept r).Tells a [] :=
  ⟨h, trivial, .refl _⟩

/-- A computation that cannot fail tells what its script tells. -/
theorem lift (x : Timed α) (h : Script.Sound x.script) :
    Tells (ExceptT.lift x) x.value x.script.accounts := by
  have hscript : (Run.timed (ExceptT.lift x)).script = x.script ++ [] := rfl
  refine ⟨rfl, ?_, ?_⟩
  · rw [hscript, List.append_nil]
    exact h
  · rw [hscript, List.append_nil]

theorem bind {x : Run α} {f : α → Run β} {a : α} {b : β} {first second : List Account}
    (hx : x.Tells a first) (hf : (f a).Tells b second) : (x >>= f).Tells b (first ++ second) := by
  have hvalue : x.timed.value = .ok a := hx.result
  have hscript : (x >>= f).timed.script = x.timed.script ++ (f a).timed.script := by
    show x.timed.script ++ (ExceptT.bindCont f x.timed.value).script = _
    rw [hvalue]
    rfl
  refine ⟨?_, ?_, ?_⟩
  · rw [result_bind, hx.result]
    exact hf.result
  · rw [hscript]
    exact Script.sound_append.mpr ⟨hx.sound, hf.sound⟩
  · rw [hscript, Script.accounts_append]
    exact hx.told.append hf.told

theorem perm {r : Run α} {a : α} {told other : List Account} (h : r.Tells a told)
    (hperm : told.Perm other) : r.Tells a other :=
  ⟨h.result, h.sound, h.told.trans hperm⟩

/-- What is done about a failure plays no part in a run that succeeds. -/
theorem tryCatch {x : Run α} {a : α} {told : List Account} (h : x.Tells a told)
    (handle : Error → Run α) : Tells (MonadExcept.tryCatch x handle) a told := by
  obtain ⟨value, script⟩ : Timed (Except Error α) := x
  obtain ⟨rfl, hsound, htold⟩ : value = .ok a ∧ Script.Sound script
      ∧ script.accounts.Perm told := ⟨h.result, h.sound, h.told⟩
  refine ⟨rfl, ?_, ?_⟩
  · show Script.Sound (script ++ [])
    rwa [List.append_nil]
  · show (Script.accounts (script ++ [])).Perm told
    rwa [List.append_nil]

/-- What a run tells is heard, whatever else goes on in the meantime. -/
theorem heard {r : Run α} {a : α} {told : List Account} (h : r.Tells a told) :
    r.heard.Perm told := by
  have hnoted := (Script.perm_noted .foreground h.sound).filterMap Observation.account?
  have hheard : r.heard = ((Script.play .foreground r.timed.script).filterMap
      (·.2.observation?)).filterMap Observation.account? := by
    rw [Run.heard, Timed.chronicle, List.filterMap_filterMap, List.filterMap_filterMap]
    congr 1
    funext ⟨time, report⟩
    exact Option.bind_map
  rw [hheard]
  exact hnoted.trans h.told

end Tells

/-- A run that succeeds has succeeded in its first part, and then in its second. -/
theorem result_bind_eq_ok_iff {x : Run α} {f : α → Run β} {b : β} :
    (x >>= f).result = .ok b ↔ ∃ a, x.result = .ok a ∧ (f a).result = .ok b := by
  rw [result_bind]
  cases x.result <;> simp [Except.bind]

/-- A run that may fail: when it succeeds, then with a given value, and it tells some
accounts on the way. -/
def MayTell (r : Run α) (a? : Option α) (told : List Account) : Prop :=
  ∀ a, r.result = .ok a → a? = some a ∧ r.Tells a told

/-- A step in front of a run that tells nothing leaves what the run tells. -/
theorem MayTell.andThen {x : Run Unit} {r : Run α} {a? : Option α} {told : List Account}
    (hx : x.Tells () []) (h : r.MayTell a? told) : (x >>= fun _ => r).MayTell a? told := by
  intro a hok
  obtain ⟨_, _, hr⟩ := result_bind_eq_ok_iff.mp hok
  obtain ⟨ha, htells⟩ := h a hr
  exact ⟨ha, hx.bind htells⟩

end Run

/-! ### Batches -/

namespace Batch

open Join

variable {b : Batch Json} {order : List Nat} {values : List Json}

/-- Of a batch whose tasks all succeed every completion is reported. -/
theorem map_account_finishes (hobserved : b.observed = true) (hreport : b.report = some)
    (hvalues : b.outcomes = values.map .ok) {policy : Policy} {k : Join Json} {moves : List Move}
    (hk : Advances (b.frame policy) b.outcomes b.opening order k moves) :
    (Move.finishes moves).map Progress.account
      = order.map fun i => ⟨b.label, i, true, values[i]?, values.length⟩ := by
  have hlength : (Move.finishes moves).length = order.length := by
    rw [← hk.finishes, List.length_map]
  have htotal : b.opening.total = values.length := by
    have := congrArg List.length hvalues
    simpa [opening, Join.start] using this
  refine List.ext_getElem? fun n => ?_
  rw [List.getElem?_map, List.getElem?_map]
  cases hp : (Move.finishes moves)[n]? with
  | none =>
    have hn : order.length ≤ n := hlength ▸ List.getElem?_eq_none_iff.mp hp
    rw [List.getElem?_eq_none hn]
    rfl
  | some p =>
    obtain ⟨i, index, outcome, hindex, houtcome, hi, _, rfl⟩ := hk.getElem?_finishes hp
    rw [hvalues, List.getElem?_map] at houtcome
    obtain ⟨value, hvalue, rfl⟩ := Option.map_eq_some_iff.mp houtcome
    rw [hindex]
    simp [Progress.account, progress, frame, hobserved, hreport, hvalue, hi, htotal,
      Except.toOption, Except.isOk, Except.toBool]

/-- Whatever the order of completion, the reports on all tasks are those by index. -/
theorem perm_ofValues (horder : order.Perm (List.range values.length)) (label : String) :
    (order.map fun i => (⟨label, i, true, values[i]?, values.length⟩ : Account)).Perm
      (Account.ofValues label (values.map some)) := by
  have hindices : Account.ofValues label (values.map some)
      = (List.range values.length).map fun i => ⟨label, i, true, values[i]?, values.length⟩ := by
    refine List.ext_getElem? fun n => ?_
    rw [Account.ofValues, List.getElem?_mapIdx, List.getElem?_map, List.getElem?_map,
      List.length_map]
    by_cases hn : n < values.length
    · simp [List.getElem?_range hn, List.getElem?_eq_getElem hn]
    · rw [List.getElem?_eq_none (by omega), List.getElem?_eq_none (by simpa using hn)]
      rfl
  rw [hindices]
  exact horder.map _

/-- The reports that the answers of a batch make. -/
theorem accounts_answers (hobserved : b.observed = true) (moves : List Move) :
    ((b.opening.running.map Move.start ++ moves).filterMap b.answer?).flatten.filterMap
        Observation.account?
      = (Move.finishes moves).map Progress.account := by
  have hevents := b.events_eq (b.opening.running.map .start ++ moves)
  rw [hobserved, if_pos rfl, Move.finishes_append, Move.finishes_map_start,
    List.nil_append] at hevents
  rw [← hevents, events, List.map_filterMap]
  congr 1
  funext o
  cases o <;> rfl

/-- A batch whose tasks all succeed has the accounts of its tasks in its script, and one
account for every task. -/
theorem accounts_collectAlong (hobserved : b.observed = true) (hreport : b.report = some)
    (ho : b.Completes order) (hvalues : b.outcomes = values.map .ok) :
    (b.collectAlong order).timed.script.accounts.Perm
      (Account.ofValues b.label (values.map some)
        ++ (b.tasks.map Timed.script).flatMap Script.accounts) := by
  have hlength : values.length = b.tasks.length := by
    simpa [outcomes] using (congrArg List.length hvalues).symm
  obtain ⟨k, moves, hk, _, _, hjoined⟩ := ho.goes_through
  have hmoves : (b.joinedAlong .abort order).2 = b.opening.running.map .start ++ moves :=
    congrArg Prod.snd (hjoined .abort fun index _ => fatal?_of_values hvalues .abort index)
  have hscript : (b.collectAlong order).timed.script
      = b.script (b.opening.running.map .start ++ moves) := by
    rw [script_collectAlong, ← hmoves]
    rfl
  -- All tasks are started, at the opening or behind one of the completions.
  have hall : ((b.tasks.map Timed.script).take
      (min (b.places + order.length) b.tasks.length)) = b.tasks.map Timed.script := by
    have hcount : order.length = b.tasks.length := by rw [ho.perm.length_eq, List.length_range]
    exact List.take_of_length_le (by rw [List.length_map]; omega)
  have hfinishes : ((Move.finishes moves).map Progress.account).Perm
      (Account.ofValues b.label (values.map some)) := by
    rw [map_account_finishes hobserved hreport hvalues hk]
    exact perm_ofValues (hlength ▸ ho.perm) b.label
  rw [hscript, script_eq b (starts_of_advances hk), hall, Script.accounts_join,
    List.take_append_drop, accounts_answers hobserved]
  exact List.perm_append_comm.trans (hfinishes.append_right _)

/-- A batch whose tasks all succeed tells what these tell, and one account for every
task. -/
theorem tells_collectAlong {β : Type} {xs : List β} {run : β → Run Json} {value : β → Json}
    {told : β → List Account} (htasks : b.tasks = xs.map fun x => Ending.ofRun (run x))
    (hobserved : b.observed = true) (hreport : b.report = some) (ho : b.Completes order)
    (hruns : ∀ x ∈ xs, (run x).Tells (value x) (told x)) :
    (b.collectAlong order).Tells (xs.map value)
      (Account.ofValues b.label (xs.map fun x => some (value x)) ++ xs.flatMap told) := by
  have hvalues : b.outcomes = (xs.map value).map .ok := by
    rw [outcomes, htasks, List.map_map, List.map_map]
    refine List.map_congr_left ?_
    intro x hx
    exact (Ending.outcome_ofRun _ _).trans (hruns x hx).result
  have hscripts : b.tasks.map Timed.script = xs.map fun x => (run x).timed.script := by
    rw [htasks, List.map_map]
    exact List.map_congr_left fun x _ => Ending.script_ofRun (run x)
  have hsound : ∀ task ∈ b.tasks, Script.Sound task.script := by
    intro task htask
    rw [htasks] at htask
    obtain ⟨x, hx, rfl⟩ := List.mem_map.mp htask
    rw [Ending.script_ofRun]
    exact (hruns x hx).sound
  refine ⟨collectAlong_eq_ok ho hvalues, ?_, ?_⟩
  · rw [script_collectAlong]
    exact (ho.sound_script .abort hsound).1
  · have haccounts := accounts_collectAlong hobserved hreport ho hvalues
    rw [hscripts, List.flatMap_map, List.map_map] at haccounts
    exact haccounts.trans (.append_left _ (.flatMap_left xs fun x hx => (hruns x hx).told))

/-- When a batch succeeds its tasks have succeeded, so it tells what these tell when they
succeed. -/
theorem tells_of_collectAlong {β : Type} {xs : List β} {run : β → Run Json}
    {value? : β → Option Json} {told : β → List Account}
    (htasks : b.tasks = xs.map fun x => Ending.ofRun (run x)) (hobserved : b.observed = true)
    (hreport : b.report = some) (ho : b.Completes order)
    (hruns : ∀ x ∈ xs, (run x).MayTell (value? x) (told x))
    (hok : (b.collectAlong order).result = .ok values) :
    xs.map value? = values.map some
      ∧ (b.collectAlong order).Tells values
          (Account.ofValues b.label (xs.map value?) ++ xs.flatMap told) := by
  let value (x : β) : Json := (run x).result.toOption.getD .null
  have houtcomes : (xs.map fun x => (run x).result) = values.map .ok := by
    have houtcomes := (collectAlong_eq_ok_iff ho values).mp hok
    rw [outcomes, htasks, List.map_map] at houtcomes
    rw [← houtcomes]
    exact List.map_congr_left fun x _ => (Ending.outcome_ofRun _ _).symm
  have hvalue : ∀ x ∈ xs, (run x).result = .ok (value x) := by
    intro x hx
    have hmem := List.mem_map_of_mem (f := fun x => (run x).result) hx
    rw [houtcomes] at hmem
    obtain ⟨a, _, ha⟩ := List.mem_map.mp hmem
    simp [value, ← ha, Except.toOption]
  have htells := tells_collectAlong htasks hobserved hreport ho
    fun x hx => (hruns x hx (value x) (hvalue x hx)).2
  obtain rfl : xs.map value = values := Except.ok.inj (htells.result.symm.trans hok)
  have hvalues : xs.map value? = xs.map fun x => some (value x) :=
    List.map_congr_left fun x hx => (hruns x hx (value x) (hvalue x hx)).1
  rw [hvalues]
  exact ⟨by simp, htells⟩

end Batch

end DocTemplate
