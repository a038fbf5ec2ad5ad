/-
The course that a computation takes.

A course tells which helpers are called, in which order, and what comes of it.  One course
after another is that of the second behind that of the first, unless the first one fails:
then nothing is called any more (`Course`, a lawful monad).

A run *takes* a course when the calls in its script are those of the course, its result is
that of the course, and its script is single, so that the calls happen in this order
whoever carries it out (`Run.Takes`).  Runs that are put together from others take the
courses that are put together from theirs.

* `Run.Takes.bind`, `Run.Takes.map` — one run after another;
* `Batch.takes_collect` — a batch with one place takes the courses of its tasks, one after
  the other, up to the first that fails.
-/
import DocTemplate.Proofs.Batch
import DocTemplate.Proofs.InTurn

namespace DocTemplate

/-- The calls of helpers that are made, and what comes of them. -/
structure Course (α : Type) where
  calls : List Invocation
  result : Except Error α

namespace Course

variable {α β : Type}

/-- One course after another, unless the first one fails. -/
def andThen (x : Course α) (f : α → Course β) : Course β :=
  match x.result with
  | .ok a => ⟨x.calls ++ (f a).calls, (f a).result⟩
  | .error e => ⟨x.calls, .error e⟩

instance : Monad Course where
  pure a := ⟨[], .ok a⟩
  bind := andThen

/-- A failure. -/
def fail (e : Error) : Course α := ⟨[], .error e⟩

/-- One call. -/
def call (i : Invocation) : Course Unit := ⟨[i], .ok ()⟩

/-- What comes of something that calls nobody. -/
def ofExcept (r : Except Error α) : Course α := ⟨[], r⟩

/-- An error leaves the stage of a helper on a path. -/
def locate (name : String) (path : Path) (c : Course α) : Course α :=
  ⟨c.calls, c.result.mapError (·.locate name path)⟩

/-- The run that takes a course at once. -/
def toRun (c : Course α) : Run α :=
  ExceptT.mk ⟨c.result, c.calls.map fun i => .note (.invoked i.path i.name i.args i.input)⟩

theorem pure_eq (a : α) : (pure a : Course α) = ⟨[], .ok a⟩ := rfl

theorem bind_of_ok {x : Course α} {a : α} (h : x.result = .ok a) (f : α → Course β) :
    x >>= f = ⟨x.calls ++ (f a).calls, (f a).result⟩ := by
  show x.andThen f = _
  rw [andThen, h]

theorem bind_of_error {x : Course α} {e : Error} (h : x.result = .error e) (f : α → Course β) :
    x >>= f = ⟨x.calls, .error e⟩ := by
  show x.andThen f = _
  rw [andThen, h]

instance : LawfulMonad Course := LawfulMonad.mk' Course
  (fun x => by
    obtain ⟨calls, result⟩ := x
    cases result with
    | ok a =>
      show Course.mk (calls ++ []) _ = _
      rw [List.append_nil]
      rfl
    | error e => rfl)
  (fun _ _ => rfl)
  (fun x f g => by
    obtain ⟨calls, result⟩ := x
    cases result with
    | error e => rfl
    | ok a =>
      have hx : (⟨calls, .ok a⟩ : Course _).result = .ok a := rfl
      rw [bind_of_ok hx, bind_of_ok hx]
      cases hfirst : (f a).result with
      | error e =>
        rw [bind_of_error hfirst]
        rfl
      | ok b =>
        rw [bind_of_ok hfirst]
        show _ = Course.mk (calls ++ ((f a).calls ++ (g b).calls)) (g b).result
        rw [← List.append_assoc]
        rfl)

/-- Where the result does not fail locating a failure changes nothing. -/
theorem locate_bind_pure (name : String) (path : Path) (x : Course α) (f : α → β) :
    (x >>= fun a => pure (f a)).locate name path
      = x.locate name path >>= fun a => pure (f a) := by
  obtain ⟨calls, result⟩ := x
  cases result <;> rfl

theorem mapM_of_ok {f : α → Course β} {xs : List α} {values : List β}
    (h : xs.map (fun x => (f x).result) = values.map .ok) :
    xs.mapM f = ⟨xs.flatMap fun x => (f x).calls, .ok values⟩ := by
  induction xs generalizing values with
  | nil =>
    obtain rfl : values = [] := by simpa using h.symm
    rfl
  | cons x xs ih =>
    cases values with
    | nil => simp at h
    | cons value values =>
      obtain ⟨hfirst, hrest⟩ := List.cons.inj h
      rw [List.mapM_cons, ih hrest, bind_of_ok hfirst, bind_of_ok rfl, List.flatMap_cons]
      simp [pure_eq]

theorem mapM_of_error {f : α → Course β} {before after : List α} {x : α} {values : List β}
    {e : Error} (h : before.map (fun x => (f x).result) = values.map .ok)
    (he : (f x).result = .error e) :
    (before ++ x :: after).mapM f
      = ⟨before.flatMap (fun x => (f x).calls) ++ (f x).calls, .error e⟩ := by
  have hlast : (x :: after).mapM f = ⟨(f x).calls, .error e⟩ := by
    rw [List.mapM_cons, bind_of_error he]
  rw [List.mapM_append, mapM_of_ok h, hlast, bind_of_ok rfl, bind_of_error rfl]

end Course

/-! ### Runs and their courses -/

namespace Run

variable {α β : Type}

/-- The calls in a run, in the order of the program, and what comes of it. -/
def course (r : Run α) : Course α := ⟨r.timed.script.invocations, r.result⟩

/-- A run takes a course, whoever carries it out. -/
structure Takes (r : Run α) (c : Course α) : Prop where
  single : Script.Single r.timed.script
  course : r.course = c

theorem course_bind (x : Run α) (f : α → Run β) :
    (x >>= f).course = x.course >>= fun a => (f a).course := by
  have hscript : (x >>= f).timed.script
      = x.timed.script ++ (ExceptT.bindCont f x.timed.value).script := rfl
  cases hx : x.timed.value with
  | ok a =>
    have hresult : x.course.result = .ok a := hx
    rw [Course.bind_of_ok hresult, course, result_bind, show x.result = .ok a from hx, hscript, hx,
      Script.invocations_append]
    rfl
  | error e =>
    have hresult : x.course.result = .error e := hx
    rw [Course.bind_of_error hresult, course, result_bind, show x.result = .error e from hx,
      hscript, hx, Script.invocations_append]
    show Course.mk (x.timed.script.invocations ++ []) _ = _
    rw [List.append_nil]
    rfl

namespace Takes

theorem pure (a : α) : Takes (Pure.pure a) (Pure.pure a) := ⟨trivial, rfl⟩

theorem throw (e : Error) : Takes (MonadExcept.throw e : Run α) (Course.fail e) := ⟨trivial, rfl⟩

theorem ofExcept (r : Except Error α) : (Run.ofExcept r).Takes (Course.ofExcept r) := ⟨trivial, rfl⟩

/-- What is made known without a call counts for nothing. -/
theorem note {o : Observation} (h : o.invocation? = none) : (Run.note o).Takes (Pure.pure ()) := by
  refine ⟨⟨trivial, trivial⟩, ?_⟩
  have hcalls : Script.invocations [.note o] = [] := by
    rw [Script.invocations_note, h]
    rfl
  show Course.mk (Script.invocations [.note o]) _ = _
  rw [hcalls]
  rfl

theorem log (n : Notice) : (Run.log n).Takes (Pure.pure ()) := note rfl

theorem invoked (path : Path) (name : String) (args : List String) (input : Json) :
    (Run.note (.invoked path name args input)).Takes (Course.call ⟨path, name, args, input⟩) :=
  ⟨⟨trivial, trivial⟩, rfl⟩

theorem bind {x : Run α} {f : α → Run β} {c : Course α} {g : α → Course β} (hx : x.Takes c)
    (hf : ∀ a, (f a).Takes (g a)) : (x >>= f).Takes (c >>= g) := by
  constructor
  · show Script.Single (x.timed.script ++ (ExceptT.bindCont f x.timed.value).script)
    rw [Script.single_append]
    refine ⟨hx.single, ?_⟩
    cases x.timed.value with
    | ok a => exact (hf a).single
    | error e => exact trivial
  · rw [course_bind, hx.course]
    congr 1
    funext a
    exact (hf a).course

theorem andThen {x : Run Unit} {r : Run α} {c : Course α} (hx : x.Takes (Pure.pure ()))
    (hr : r.Takes c) : (x >>= fun _ => r).Takes c := by
  have h := hx.bind fun _ => hr
  rwa [pure_bind] at h

theorem map {x : Run α} {c : Course α} (hx : x.Takes c) (f : α → β) :
    (x >>= fun a => Pure.pure (f a)).Takes (f <$> c) := by
  rw [map_eq_pure_bind]
  exact hx.bind fun a => pure (f a)

/-- What only reports a failure counts for nothing. -/
theorem tryCatch {x : Run α} {c : Course α} {f : Error → Run Unit}
    (hx : x.Takes c) (hf : ∀ e, (f e).Takes (Pure.pure ())) :
    (MonadExcept.tryCatch x fun e => f e >>= fun _ => MonadExcept.throw e : Run α).Takes c := by
  obtain ⟨hsingle, rfl⟩ := hx
  obtain ⟨value, script⟩ : Timed (Except Error α) := x
  cases value with
  | ok a =>
    constructor
    · show Script.Single (script ++ [])
      rw [List.append_nil]
      exact hsingle
    · show Course.mk (Script.invocations (script ++ [])) (.ok a) = _
      rw [List.append_nil]
      rfl
  | error e =>
    have hthrow : (f e >>= fun _ => MonadExcept.throw e : Run α).Takes (Course.fail e) :=
      (hf e).andThen (throw e)
    have hcalls : Script.invocations (f e >>= fun _ => MonadExcept.throw e : Run α).timed.script = [] :=
      congrArg Course.calls hthrow.course
    have hresult : (f e >>= fun _ => MonadExcept.throw e : Run α).result = .error e :=
      congrArg Course.result hthrow.course
    constructor
    · show Script.Single (script ++ (f e >>= fun _ => MonadExcept.throw e : Run α).timed.script)
      exact Script.single_append.mpr ⟨hsingle, hthrow.single⟩
    · show Course.mk (Script.invocations (script ++ _))
        (f e >>= fun _ => MonadExcept.throw e : Run α).result = _
      rw [Script.invocations_append, hresult]
      show Course.mk (Script.invocations script
        ++ Script.invocations (f e >>= fun _ => MonadExcept.throw e : Run α).timed.script) _ = _
      rw [hcalls, List.append_nil]
      rfl

theorem toRun (c : Course α) : c.toRun.Takes c := by
  have hnotes (calls : List Invocation) :
      Script.Single (calls.map fun i => Act.note (.invoked i.path i.name i.args i.input))
        ∧ Script.invocations (calls.map fun i => Act.note (.invoked i.path i.name i.args i.input))
          = calls := by
    induction calls with
    | nil => exact ⟨trivial, rfl⟩
    | cons i calls ih =>
      refine ⟨⟨trivial, ih.1⟩, ?_⟩
      rw [List.map_cons, Script.invocations_note, ih.2]
      rfl
  refine ⟨(hnotes c.calls).1, ?_⟩
  show Course.mk _ c.result = c
  rw [show c.toRun.timed.script.invocations = c.calls from (hnotes c.calls).2]

end Takes

end Run

/-! ### Batches with one place -/

theorem Script.invocations_join {answers : List (List Observation)} (h : Quiet answers)
    (started queued : List Script) :
    Script.invocations [.join started queued answers]
      = (started ++ queued).flatMap Script.invocations := by
  induction started with
  | cons task started ih =>
    rw [Script.invocations_start, ih, List.cons_append, List.flatMap_cons]
  | nil =>
    induction queued with
    | cons task queued ih =>
      rw [Script.invocations_queued, ih, List.nil_append, List.nil_append, List.flatMap_cons]
    | nil =>
      show List.filterMap _ (answers.flatten ++ []) = []
      rw [List.append_nil]
      exact h.flatten

/-- With one place tasks complete in the order of their indices. -/
theorem Join.Admissible.eq_range' {α : Type} {outcomes : List (Except Error α)}
    {total index count : Nat} {settled : List (Nat × Except Error α)} {order : List Nat}
    (h : Join.Admissible outcomes ⟨total, List.range' (index + 1) count, [index], settled⟩ order) :
    order = List.range' index (count + 1) := by
  induction count generalizing index settled order with
  | zero =>
    cases order with
    | nil => simp [Join.Admissible] at h
    | cons i order =>
      obtain ⟨hi, _, _, hrest⟩ := h
      obtain rfl : i = index := by simpa using hi
      cases order with
      | nil => rfl
      | cons j order =>
        obtain ⟨hj, _⟩ := hrest
        simp [Join.settle] at hj
  | succ count ih =>
    cases order with
    | nil => simp [Join.Admissible] at h
    | cons i order =>
      obtain ⟨hi, outcome, _, hrest⟩ := h
      obtain rfl : i = index := by simpa using hi
      have hnext : Join.Admissible outcomes
          ⟨total, List.range' (i + 1 + 1) count, [i + 1], settled ++ [(i, outcome)]⟩ order := by
        simpa [Join.settle, List.range'_succ] using hrest
      rw [ih hnext, List.range'_succ]
      rfl

/-! ### What is let to run -/

/-- What is let to run is a run that takes a course, and does not panic. -/
def Timed.Takes {α : Type} (x : Timed (Ending α)) (c : Course α) : Prop :=
  ∃ r : Run α, r.Takes c ∧ x = Ending.ofRun r

namespace Timed.Takes

variable {α : Type} {x : Timed (Ending α)} {c : Course α}

theorem ofRun {r : Run α} (h : r.Takes c) : (Ending.ofRun r).Takes c := ⟨r, h, rfl⟩

theorem single (h : x.Takes c) : Script.Single x.script := by
  obtain ⟨r, hr, rfl⟩ := h
  rw [Ending.script_ofRun]
  exact hr.single

theorem calls (h : x.Takes c) : x.script.invocations = c.calls := by
  obtain ⟨r, hr, rfl⟩ := h
  rw [Ending.script_ofRun]
  exact congrArg Course.calls hr.course

theorem value (h : x.Takes c) : x.value = Ending.ofResult c.result := by
  obtain ⟨r, hr, rfl⟩ := h
  rw [Ending.value_ofRun]
  exact congrArg (fun c => Ending.ofResult c.result) hr.course

/-- There is one course only that is taken. -/
theorem unique {c' : Course α} (h : x.Takes c) (h' : x.Takes c') : c = c' := by
  obtain ⟨calls, result⟩ := c
  obtain ⟨calls', result'⟩ := c'
  obtain rfl : calls = calls' := h.calls.symm.trans h'.calls
  have hresult : Ending.ofResult result = Ending.ofResult result' := h.value.symm.trans h'.value
  cases result <;> cases result' <;> simp_all [Ending.ofResult]

end Timed.Takes

namespace Batch

variable {α : Type} {b : Batch α}

theorem Completes.eq_range {order : List Nat} (h : b.Completes order) (hone : b.places = 1) :
    order = List.range b.tasks.length := by
  rw [Completes, Join.start, hone, List.range_eq_range'] at h
  rw [List.range_eq_range']
  cases hlength : b.tasks.length with
  | zero =>
    rw [hlength] at h
    cases order with
    | nil => rfl
    | cons i order => simp [Join.Admissible] at h
  | succ n =>
    rw [hlength, List.range'_succ] at h
    exact Join.Admissible.eq_range' h

/-- The course of a task. -/
def courseOf (b : Batch α) (task : Timed (Ending α)) : Course α :=
  ⟨task.script.invocations, task.value.outcome b.label⟩

theorem courseOf_of_takes {task : Timed (Ending α)} {c : Course α} (h : task.Takes c) :
    b.courseOf task = c := by
  obtain ⟨calls, result⟩ := c
  rw [courseOf, h.calls, h.value]
  cases result <;> rfl

theorem quiet_answers (b : Batch α) (moves : List Move) : Quiet (moves.filterMap b.answer?) := by
  intro answer hanswer
  obtain ⟨move, _, hmove⟩ := List.mem_filterMap.mp hanswer
  cases move with
  | start index => simp [answer?] at hmove
  | finish progress =>
    obtain rfl := Option.some.inj hmove
    cases b.observed <;> rfl
  | abort index detached =>
    obtain rfl := Option.some.inj hmove
    split <;> rfl

/-- A batch with one place that starts the first tasks, and answers to all of these. -/
theorem takes_of_moves (hone : b.places = 1)
    (hsingle : ∀ task ∈ b.tasks, Script.Single task.script) {order : List Nat} {n : Nat}
    (hn : n ≤ b.tasks.length) (hstarts : Move.starts (b.joinedAlong .abort order).2 = List.range n)
    (hcount : (b.joinedAlong .abort order).2.countP (! ·.isStart) = n) :
    Script.Single (b.collectAlong order).timed.script
      ∧ (b.collectAlong order).timed.script.invocations
          = (b.tasks.take n).flatMap fun task => (b.courseOf task).calls := by
  have hscript : (b.collectAlong order).timed.script = b.script (b.joinedAlong .abort order).2 :=
    script_collectAlong b order
  have hanswers := b.length_answers (b.joinedAlong .abort order).2
  have hquiet := b.quiet_answers (b.joinedAlong .abort order).2
  rw [hscript, script_eq b hstarts, hone, ← List.map_take]
  rw [hcount] at hanswers
  generalize (b.joinedAlong .abort order).2.filterMap b.answer? = answers at hanswers hquiet ⊢
  have hall : ∀ script ∈ (b.tasks.take n).map Timed.script, Script.Single script := by
    intro script hscript
    obtain ⟨task, htask, rfl⟩ := List.mem_map.mp hscript
    exact hsingle task (List.mem_of_mem_take htask)
  constructor
  · refine ⟨⟨⟨?_, ?_, ?_⟩, hquiet, ?_, ?_⟩, trivial⟩
    · exact List.length_take_le _ _
    · rw [← List.length_append, List.take_append_drop, List.length_map, List.length_take]
      omega
    · rw [List.length_take, List.length_drop]
      omega
    · exact allSingle_iff.mpr fun script hmem => hall script (List.mem_of_mem_take hmem)
    · exact allSingle_iff.mpr fun script hmem => hall script (List.mem_of_mem_drop hmem)
  · rw [Script.invocations_join hquiet, List.take_append_drop, List.flatMap_map]
    rfl

theorem takes_collect_of_values (hone : b.places = 1)
    (hsingle : ∀ task ∈ b.tasks, Script.Single task.script) {values : List α}
    (hvalues : b.outcomes = values.map .ok) : b.collect.Takes (b.tasks.mapM b.courseOf) := by
  have hcompletes := b.completes_order
  obtain ⟨k, moves, hk, _, _, hjoined⟩ := hcompletes.goes_through
  have hmoves := hjoined .abort fun index _ => fatal?_of_values hvalues .abort index
  have hlength : b.order.length = b.tasks.length := by
    rw [hcompletes.perm.length_eq, List.length_range]
  have hstarts : Move.starts (b.joinedAlong .abort b.order).2 = List.range b.tasks.length := by
    rw [hmoves, starts_of_advances hk, hlength]
    congr 1
    omega
  have hcount : (b.joinedAlong .abort b.order).2.countP (! ·.isStart) = b.tasks.length := by
    rw [hmoves, countP_of_advances hk, hlength]
  obtain ⟨hscript, hcalls⟩ := takes_of_moves hone hsingle (Nat.le_refl _) hstarts hcount
  have hresults : b.tasks.map (fun task => (b.courseOf task).result) = values.map .ok := hvalues
  refine ⟨hscript, ?_⟩
  rw [Course.mapM_of_ok hresults, Run.course, collect, hcalls, List.take_length,
    collectAlong_eq_ok hcompletes hvalues]

/-- Up to a task that fails the courses are taken, and no further. -/
theorem mapM_courseOf_of_error {n : Nat} (hlt : n < b.tasks.length)
    (hok : ∀ i < n, ∃ a, b.outcomes[i]? = some (.ok a)) {error : Error}
    (he : b.outcomes[n]? = some (.error error)) :
    b.tasks.mapM b.courseOf
      = ⟨(b.tasks.take (n + 1)).flatMap fun task => (b.courseOf task).calls, .error error⟩ := by
  have hsplit : b.tasks = b.tasks.take n ++ b.tasks[n] :: b.tasks.drop (n + 1) := by
    rw [List.getElem_cons_drop, List.take_append_drop]
  obtain ⟨values, hvalues⟩ : ∃ values : List α,
      (b.tasks.take n).map (fun task => (b.courseOf task).result) = values.map .ok := by
    refine exists_values_of_forall ?_
    intro outcome houtcome
    obtain ⟨i, hi⟩ := List.mem_iff_getElem?.mp houtcome
    rw [List.getElem?_map, List.getElem?_take] at hi
    split at hi
    next hlt =>
      obtain ⟨a, ha⟩ := hok i hlt
      rw [outcomes, List.getElem?_map] at ha
      exact ⟨a, Option.some.inj (hi.symm.trans ha)⟩
    next => simp at hi
  have hfails : (b.courseOf b.tasks[n]).result = .error error := by
    rw [outcomes, List.getElem?_map, List.getElem?_eq_getElem hlt] at he
    exact Option.some.inj he
  rw [hsplit, Course.mapM_of_error hvalues hfails, ← hsplit, List.take_add_one,
    List.getElem?_eq_getElem hlt, List.flatMap_append]
  simp

theorem takes_collect_of_error (hone : b.places = 1)
    (hsingle : ∀ task ∈ b.tasks, Script.Single task.script) {before after : List Nat}
    {index : Nat} {error : Error} (horder : b.order = before ++ index :: after)
    (hok : ∀ i ∈ before, ∃ a, b.outcomes[i]? = some (.ok a))
    (he : b.outcomes[index]? = some (.error error)) :
    b.collect.Takes (b.tasks.mapM b.courseOf) := by
  have hcompletes := b.completes_order
  -- The tasks complete in order, so those in front of the failure are the first ones.
  have hrange := hcompletes.eq_range hone
  rw [horder] at hrange
  have hlt : before.length < b.tasks.length := by
    have := congrArg List.length hrange
    simp only [List.length_append, List.length_cons, List.length_range] at this
    omega
  obtain rfl : index = before.length := by
    have hget := congrArg (·[before.length]?) hrange
    simpa [hlt] using hget
  have hbefore : before = List.range before.length := by
    have htake := congrArg (List.take before.length) hrange
    rw [List.take_left, List.take_range, Nat.min_eq_left (Nat.le_of_lt hlt)] at htake
    exact htake
  rw [horder] at hcompletes
  obtain ⟨cut, _, _, detached, _, _, habort, _, hstarted, hfinished⟩ :=
    joinedAlong_cut hcompletes hok he
  have hstarts : Move.starts (b.joinedAlong .abort b.order).2
      = List.range (before.length + 1) := by
    rw [horder, habort, Move.starts_append, hstarted, hone]
    simp only [Move.starts_cons_abort, Move.starts_nil, List.append_nil]
    congr 1
    omega
  have hcount : (b.joinedAlong .abort b.order).2.countP (! ·.isStart) = before.length + 1 := by
    rw [horder, habort, List.countP_append, hfinished]
    rfl
  obtain ⟨hscript, hcalls⟩ := takes_of_moves hone hsingle hlt hstarts hcount
  have hfirst (i : Nat) (hi : i < before.length) : ∃ a, b.outcomes[i]? = some (.ok a) :=
    hok i (by rw [hbefore]; exact List.mem_range.mpr hi)
  refine ⟨hscript, ?_⟩
  rw [mapM_courseOf_of_error hlt hfirst he, Run.course, collect, hcalls, horder,
    collectAlong_eq_error hcompletes hok he]

/-- A batch with one place takes the courses of its tasks in order, up to the first one
that fails. -/
theorem takes_collect (hone : b.places = 1)
    (hsingle : ∀ task ∈ b.tasks, Script.Single task.script) :
    b.collect.Takes (b.tasks.mapM b.courseOf) := by
  rcases exists_first_failure b.completes_order with
    ⟨values, hvalues⟩ | ⟨before, index, after, error, horder, hok, he⟩
  · exact takes_collect_of_values hone hsingle hvalues
  · exact takes_collect_of_error hone hsingle horder hok he

/-- Tasks that take courses of their own. -/
theorem takes_collect_tasks {β : Type} {xs : List β} {task : β → Timed (Ending α)}
    {course : β → Course α} (hone : b.places = 1) (htasks : b.tasks = xs.map task)
    (htakes : ∀ x ∈ xs, (task x).Takes (course x)) : b.collect.Takes (xs.mapM course) := by
  have hsingle : ∀ t ∈ b.tasks, Script.Single t.script := by
    intro t ht
    rw [htasks] at ht
    obtain ⟨x, hx, rfl⟩ := List.mem_map.mp ht
    exact (htakes x hx).single
  have hcourses : (b.tasks.map b.courseOf) = xs.map course := by
    rw [htasks, List.map_map]
    exact List.map_congr_left fun x hx => courseOf_of_takes (htakes x hx)
  have hmapM : b.tasks.mapM b.courseOf = xs.mapM course := by
    have hid {γ : Type} (ys : List γ) (f : γ → Course α) : ys.mapM f = (ys.map f).mapM id := by
      rw [List.mapM_map]
      rfl
    rw [hid, hid xs, hcourses]
  rw [← hmapM]
  exact takes_collect hone hsingle

end Batch

end DocTemplate
