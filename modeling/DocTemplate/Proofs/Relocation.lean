/-
Stages at another place.

A chain counts its stages: it says at which of them it gives way or exits, and bounds the
part that a helper runs itself by a sum.  Apart from that it makes no difference where stages
stand.  Two bindings with the same stages in some range, under the same path, give the same
there, or fail with the same error, in the same time, and make known the same but for the
numbers of stages.

* `Timed.Resembles` — the same but for the numbers of stages;
* `Batch.resembles_collect` — tasks that resemble each other complete in the same order;
* `Helper.Movable` — a helper that cannot tell at which place it stands;
* `Binding.resembles_runFrom` — stages that call such helpers, by induction on how many there
  are.
-/
import DocTemplate.Catalog.Basic
import DocTemplate.Proofs.Rewording
import DocTemplate.Proofs.SequencePoint

namespace DocTemplate

open DocTemplate.Text

/-! ### Computations -/

/-- What is made known, without the number of a stage. -/
def Observation.unplaced : Observation → Observation
  | .gaveWay path _ => .gaveWay path 0
  | .logged (.chainExited path _) => .logged (.chainExited path 0)
  | o => o

/-- Two computations have the same value, do the same at the same times, and make known the
same but for the numbers of stages. -/
structure Timed.Resembles {α : Type} (x y : Timed α) : Prop where
  value : x.value = y.value
  script : Script.reword .unplaced x.script = Script.reword .unplaced y.script

/-- Two runs that resemble each other as computations. -/
abbrev Run.Resembles {α : Type} (r r' : Run α) : Prop := r.timed.Resembles r'.timed

section

variable {α β : Type}

theorem Timed.Resembles.refl (x : Timed α) : x.Resembles x := ⟨rfl, rfl⟩

theorem Timed.Resembles.bind {x y : Timed α} {f g : α → Timed β} (h : x.Resembles y)
    (hf : ∀ a, (f a).Resembles (g a)) : (x >>= f).Resembles (y >>= g) := by
  obtain ⟨hvalue, hscript⟩ := h
  constructor
  · rw [Timed.value_bind, Timed.value_bind, hvalue]
    exact (hf y.value).value
  · rw [Timed.script_bind, Timed.script_bind, Script.reword_append, Script.reword_append,
      hscript, hvalue, (hf y.value).script]

namespace Run.Resembles

theorem refl (r : Run α) : r.Resembles r := Timed.Resembles.refl r.timed

theorem result {r r' : Run α} (h : r.Resembles r') : r.result = r'.result := h.value

theorem bind {r r' : Run α} {f g : α → Run β} (h : r.Resembles r')
    (hf : ∀ a, (f a).Resembles (g a)) : (r >>= f).Resembles (r' >>= g) := by
  refine Timed.Resembles.bind h ?_
  intro result
  cases result with
  | ok a => exact hf a
  | error e => exact .refl _

theorem lift {x y : Timed α} (h : x.Resembles y) :
    Run.Resembles (ExceptT.lift x) (ExceptT.lift y) :=
  ⟨congrArg Except.ok h.value, by
    show Script.reword _ (x.script ++ []) = Script.reword _ (y.script ++ [])
    rw [List.append_nil, List.append_nil, h.script]⟩

theorem note {o o' : Observation} (h : o.unplaced = o'.unplaced) :
    (Run.note o).Resembles (Run.note o') := by
  refine lift ⟨rfl, ?_⟩
  show [Act.note o.unplaced] = [Act.note o'.unplaced]
  rw [h]

end Run.Resembles

end

/-! ### Batches -/

namespace Batch

variable {α : Type}

/-- Two batches have tasks that resemble each other, and nothing else to tell them apart. -/
structure Resembles (b b' : Batch α) : Prop where
  runner : b.runner = b'.runner
  label : b.label = b'.label
  ceiling : b.ceiling = b'.ceiling
  observed : b.observed = b'.observed
  report : b.report = b'.report
  values : b.tasks.map Timed.value = b'.tasks.map Timed.value
  scripts : (b.tasks.map Timed.script).map (Script.reword .unplaced)
    = (b'.tasks.map Timed.script).map (Script.reword .unplaced)

variable {b b' : Batch α}

theorem Resembles.length_eq (h : b.Resembles b') : b.tasks.length = b'.tasks.length := by
  simpa using congrArg List.length h.values

theorem Resembles.outcomes (h : b.Resembles b') : b.outcomes = b'.outcomes := by
  have houtcomes (b : Batch α) :
      b.outcomes = (b.tasks.map Timed.value).map fun ending => ending.outcome b.label := by
    rw [Batch.outcomes, List.map_map]
    rfl
  rw [houtcomes, houtcomes, h.values, h.label]

theorem Resembles.places (h : b.Resembles b') : b.places = b'.places := by
  rw [Batch.places, Batch.places, h.ceiling, h.length_eq]

theorem Resembles.order (h : b.Resembles b') : b.order = b'.order := by
  -- The order in which tasks would complete is that of their scripts without the numbers.
  have hwish (b : Batch α) : Script.completionOrder b.runner
        ((b.tasks.map Timed.script).take b.places) ((b.tasks.map Timed.script).drop b.places)
      = Script.completionOrder b.runner
          (((b.tasks.map Timed.script).map (Script.reword .unplaced)).take b.places)
          (((b.tasks.map Timed.script).map (Script.reword .unplaced)).drop b.places) := by
    simp only [← List.map_take, ← List.map_drop, Script.completionOrder_reword]
  rw [Batch.order, Batch.order, hwish, hwish b', h.runner, h.scripts, h.places, h.length_eq]

theorem Resembles.joinedAlong (h : b.Resembles b') (policy : Policy) (order : List Nat) :
    b.joinedAlong policy order = b'.joinedAlong policy order := by
  rw [Batch.joinedAlong, Batch.joinedAlong, frame, frame, h.label, h.observed, h.report,
    h.ceiling, h.outcomes]

/-- The tasks complete in the same order, and the batches end alike. -/
theorem resembles_collect (h : b.Resembles b') : b.collect.Resembles b'.collect := by
  rw [collect, collect, ← h.order]
  refine Run.Resembles.bind ?_ fun _ => .refl _
  have hanswer : b.answer? = b'.answer? := by
    funext move
    unfold answer?
    rw [h.observed, h.label]
  have hscript (b : Batch α) (moves : List Move) : Script.reword .unplaced (b.script moves)
      = [.join (((b.tasks.map Timed.script).map (Script.reword .unplaced)).take
            (moves.countP Move.isStart) |>.take b.places)
          (((b.tasks.map Timed.script).map (Script.reword .unplaced)).take
            (moves.countP Move.isStart) |>.drop b.places)
          ((moves.filterMap b.answer?).map (List.map .unplaced))] := by
    simp only [Batch.script, Script.reword, Act.reword, rewordAll_eq, List.map_take, List.map_drop]
  constructor
  · show (b.joinedAlong .abort b.order).1 = (b'.joinedAlong .abort b.order).1
    rw [h.joinedAlong]
  · show Script.reword _ (b.script (b.joinedAlong .abort b.order).2)
      = Script.reword _ (b'.script (b'.joinedAlong .abort b.order).2)
    rw [hscript, hscript, h.joinedAlong, h.scripts, h.places, hanswer]

/-- Batches of tasks for the same values, which resemble each other one by one. -/
theorem Resembles.of_tasks {xs : List Json} {task task' : Json → Timed (Ending α)}
    (htasks : ∀ x, (task x).Resembles (task' x)) (b : Batch α) :
    Resembles { b with tasks := xs.map task } { b with tasks := xs.map task' } := by
  refine ⟨rfl, rfl, rfl, rfl, rfl, ?_, ?_⟩
  · simp only [List.map_map]
    exact List.map_congr_left fun x _ => (htasks x).value
  · simp only [List.map_map]
    exact List.map_congr_left fun x _ => (htasks x).script

end Batch

/-! ### Helpers -/

namespace Helper

/-- The helper cannot tell at which place it stands: what it does hangs on the stages behind
its own only by what they are and by what comes of running some of them, up to all that there
are or up to a limit. -/
def Movable (limit : Nat) (args : List String) (helper : Helper) : Prop :=
  ∀ (ctx : HelperContext) (runRemaining : Runner → Nat → Json → Timed (Ending Json)),
    (∀ runner count input, count ≤ max ctx.remaining.length limit →
      (ctx.runRemaining runner count input).Resembles (runRemaining runner count input)) →
    ∀ input, (helper ctx args input).Resembles (helper { ctx with runRemaining } args input)

/-- A call that goes on with the value of something it runs. -/
theorem resembles_proceed {x y : Timed (Ending Json)} {f g : Json → Timed Outcome}
    (h : x.Resembles y) (hf : ∀ value, (f value).Resembles (g value)) :
    (proceed x f).Resembles (proceed y g) := by
  refine h.bind ?_
  intro ending
  cases ending with
  | value v => exact hf v
  | failure e => exact .refl _
  | panic payload => exact .refl _

/-- A helper that runs none of the stages behind its own is movable. -/
theorem movable_of_same {helper : Helper} {args : List String} (limit : Nat)
    (h : ∀ ctx runRemaining input,
      helper { ctx with runRemaining } args input = helper ctx args input) :
    helper.Movable limit args := by
  intro ctx runRemaining _ input
  rw [h ctx runRemaining input]
  exact .refl _

theorem HandsOn.movable {helper : Helper} (h : helper.HandsOn) (limit : Nat)
    (args : List String) : helper.Movable limit args :=
  movable_of_same limit fun ctx runRemaining input =>
    h.ignores ctx ctx.remaining runRemaining args input

theorem resembles_mapElements {ctx : HelperContext} {count : Nat}
    {runRemaining : Runner → Nat → Json → Timed (Ending Json)}
    (hruns : ∀ input, (ctx.runRemaining .task count input).Resembles
      (runRemaining .task count input)) (input : Json) :
    (mapElements ctx count input).Resembles
      (mapElements { ctx with runRemaining } count input) := by
  have heach (values : List Json) : (runEach ctx count values).Resembles
      (runEach { ctx with runRemaining } count values) :=
    Batch.resembles_collect (.of_tasks hruns (elements ctx count []))
  cases input with
  | array items => exact (heach items).bind fun _ => .refl _
  | object members => exact (heach _).bind fun _ => .refl _
  | null | bool | number | string => exact .refl _

theorem movable_map (limit : Nat) (args : List String) : map.Movable limit args := by
  intro ctx runRemaining hruns input
  have hcount := getD_boundary?_le ctx.remaining
  rw [map_eq_ofRun]
  refine Timed.Resembles.bind (Run.Resembles.bind ?_ fun _ => .refl _) fun _ => .refl _
  exact resembles_mapElements (fun input => hruns .task _ input (by omega)) input

end Helper

namespace Catalog

open Helper

variable {limit : Nat} {args : List String}

section Counting

variable (h : ∀ count, Word.read? (firstArg args) = some count → count ≤ limit)

include h

/-- A helper that takes a count is movable when it is for the counts up to the limit. -/
theorem movable_counting {f : HelperContext → Nat → Json → Timed Outcome}
    (hf : ∀ (ctx : HelperContext) (runRemaining : Runner → Nat → Json → Timed (Ending Json)),
      ∀ count ≤ limit, ∀ input,
        (ctx.runRemaining ctx.runner count input).Resembles
            (runRemaining ctx.runner count input) →
          (f ctx count input).Resembles (f { ctx with runRemaining } count input)) :
    (counting f).Movable limit args := by
  intro ctx runRemaining hruns input
  unfold counting
  cases hcount : Word.read? (firstArg args) with
  | none => exact .refl _
  | some count =>
    have hle := h count hcount
    exact hf ctx runRemaining count hle input (hruns ctx.runner count input (by omega))

theorem movable_running (answer : Json → Nat → Flow) : (running answer).Movable limit args :=
  movable_counting h fun _ _ _ _ _ hrun => resembles_proceed hrun fun _ => .refl _

theorem movable_twice : twice.Movable limit args :=
  movable_counting h fun _ _ _ _ _ hrun =>
    resembles_proceed hrun fun _ => resembles_proceed hrun fun _ => .refl _

theorem movable_steering : ∀ entry ∈ steering, entry.2.Movable limit args := by
  simp only [steering, List.forall_mem_cons, List.not_mem_nil, false_imp_iff, implies_true,
    and_true]
  refine ⟨?_, ?_, ?_, ?_, ?_, movable_running h _, movable_running h _, movable_twice h, ?_, ?_, ?_,
    ?_, ?_⟩ <;> exact movable_of_same limit fun _ _ _ => rfl

end Counting

/-- The helpers of the catalogue are movable while they ask for no more stages than the limit
allows. -/
theorem movable_of_mem {entry : String × Helper} (hentry : entry ∈ all)
    (h : ∀ count, Word.read? (firstArg args) = some count → count ≤ limit) :
    entry.2.Movable limit args := by
  have hvalues : ∀ entry ∈ values, entry.2.Movable limit args := by
    simp only [values, List.forall_mem_cons, List.not_mem_nil, false_imp_iff, implies_true,
      and_true]
    refine ⟨?_, ?_, ?_, ?_, ?_, ?_, ?_, ?_, ?_, ?_, ?_⟩ <;>
      exact movable_of_same limit fun _ _ _ => rfl
  have hfailures : ∀ entry ∈ failures, entry.2.Movable limit args := by
    simp only [failures, List.forall_mem_cons, List.not_mem_nil, false_imp_iff, implies_true,
      and_true]
    refine ⟨?_, ?_, ?_, ?_, ?_⟩ <;> exact movable_of_same limit fun _ _ _ => rfl
  have hdelayed : ∀ entry ∈ delayed, entry.2.Movable limit args := by
    simp only [delayed, List.forall_mem_cons, List.not_mem_nil, false_imp_iff, implies_true,
      and_true]
    refine ⟨?_, ?_⟩ <;> exact movable_of_same limit fun _ _ _ => rfl
  simp only [all, List.mem_append] at hentry
  rcases hentry with ((hentry | hentry) | hentry) | hentry
  · exact hvalues entry hentry
  · exact hfailures entry hentry
  · exact hdelayed entry hentry
  · exact movable_steering h entry hentry

theorem movable_find? {name : String} {helper : Helper} (hfind : registry.find? name = some helper)
    (h : ∀ count, Word.read? (firstArg args) = some count → count ≤ limit) :
    helper.Movable limit args := by
  rcases Option.or_eq_some_iff.mp hfind with hown | ⟨-, hbuiltIn⟩
  · obtain ⟨entry, hentry, rfl⟩ := exists_mem_all hown
    exact movable_of_mem hentry h
  · rcases builtIn_cases hbuiltIn with rfl | rfl | ⟨-, rfl⟩
    · exact movable_map limit args
    · exact handsOn_passOn.movable limit args
    · exact handsOn_renderPartial.movable limit args

end Catalog

/-! ### Chains -/

namespace Binding

variable {env : Environment} {b b' : Binding} {stop cursor stop' cursor' : Nat}

theorem resembles_giveWay (env : Environment) (hpath : b.path = b'.path)
    (hbefore : cursor < stop ↔ cursor' < stop') :
    (b.giveWay env stop cursor).Resembles (b'.giveWay env stop' cursor') := by
  simp only [giveWay, hbefore, hpath]
  split
  · refine (Run.Resembles.note ?_).bind fun _ => .refl _
    rfl
  · exact .refl _

/-- A stage at another place, with the same stages behind it. -/
theorem resembles_perform (limit : Nat) {stage : Stage} {ctx : HelperContext}
    {runRemaining : Runner → Nat → Json → Timed (Ending Json)}
    (hmovable : ∀ name args helper, stage = .call name args → env.helper? name = some helper →
      helper.Movable limit args)
    (hruns : ∀ runner count input, count ≤ max ctx.remaining.length limit →
      (ctx.runRemaining runner count input).Resembles (runRemaining runner count input))
    (input : Json) :
    (stage.perform env ctx input).Resembles
      (stage.perform env { ctx with runRemaining } input) := by
  cases stage with
  | literal value => exact .refl _
  | data source => exact .refl _
  | call name args =>
    cases hhelper : env.helper? name with
    | none =>
      rw [perform_call_none hhelper, perform_call_none hhelper]
      exact .refl _
    | some helper =>
      rw [perform_call_some hhelper, perform_call_some hhelper]
      have hanswer := hmovable name args helper rfl hhelper ctx runRemaining hruns input
      exact (Run.Resembles.refl _).bind fun _ => (Run.Resembles.lift hanswer).bind fun _ => .refl _

/-- The same stages under the same path give the same at another place; there are no more
stages than there are words, not even with the limit added. -/
theorem resembles_runFrom {limit : Nat} (hpath : b.path = b'.path)
    (hb : b.stages.length + limit < Word.bound) (hb' : b'.stages.length + limit < Word.bound)
    (hstop : stop ≤ b.stages.length) (hstop' : stop' ≤ b'.stages.length)
    (hslice : b.slice cursor stop = b'.slice cursor' stop')
    (hmovable : ∀ name args helper, .call name args ∈ b.slice cursor stop →
      env.helper? name = some helper → helper.Movable limit args) (input : Json) :
    (b.runFrom env stop cursor input).Resembles (b'.runFrom env stop' cursor' input) := by
  -- What is run behind a stage, by the chain or by the helper, lies nearer to the stop.
  induction hn : stop - cursor using Nat.strongRecOn
    generalizing env stop cursor stop' cursor' input with
  | ind n ih =>
    have hlength : stop - cursor = stop' - cursor' := by
      rw [← b.length_slice cursor stop hstop, ← b'.length_slice cursor' stop' hstop', hslice]
    by_cases hcursor : stop ≤ cursor
    · rw [runFrom_of_le hcursor, runFrom_of_le (by omega)]
      exact .refl _
    · have hs := List.getElem?_eq_getElem (show cursor < b.stages.length by omega)
      have hs' := List.getElem?_eq_getElem (show cursor' < b'.stages.length by omega)
      generalize b.stages[cursor] = stage at hs
      generalize b'.stages[cursor'] = stage' at hs'
      rw [slice_eq_cons (by omega) hs, slice_eq_cons (by omega) hs'] at hslice
      rw [slice_eq_cons (by omega) hs] at hmovable
      obtain ⟨rfl, hrest⟩ := List.cons.inj hslice
      have hbehind : behind stop cursor = cursor + 1 := Nat.min_eq_left (by omega)
      have hbehind' : behind stop' cursor' = cursor' + 1 := Nat.min_eq_left (by omega)
      have hlater (count : Nat) (value : Json) :
          (b.runFrom env stop (cursor + 1 + count) value).Resembles
            (b'.runFrom env stop' (cursor' + 1 + count) value) := by
        have hdrop := congrArg (List.drop count) hrest
        rw [drop_slice, drop_slice] at hdrop
        refine ih (stop - (cursor + 1 + count)) (by omega) hstop hstop' hdrop ?_ value rfl
        intro name args helper hcall
        rw [← drop_slice] at hcall
        exact hmovable name args helper (.tail _ (List.mem_of_mem_drop hcall))
      have hcontext : b'.contextAt env stop' cursor' (b'.runRemaining env stop' cursor')
          = { b.contextAt env stop cursor (b.runRemaining env stop cursor) with
              runRemaining := b'.runRemaining env stop' cursor' } := by
        simp only [contextAt, hbehind, hbehind', hrest, hpath]
      rw [runFrom_eq (by omega) hs, runFrom_eq (by omega) hs', hcontext]
      refine Run.Resembles.bind (resembles_perform limit ?_ ?_ input) ?_
      · rintro name args helper rfl
        exact hmovable name args helper List.mem_cons_self
      · intro runner count value hcount
        have hremaining : (b.slice (cursor + 1) stop).length = stop - (cursor + 1) :=
          b.length_slice (cursor + 1) stop hstop
        replace hcount : count ≤ max (b.slice (behind stop cursor) stop).length limit := hcount
        rw [hbehind, hremaining] at hcount
        have htake := congrArg (List.take count) hrest
        rw [take_slice, take_slice] at htake
        -- Both sums are words.
        simp only [contextAt]
        rw [runRemaining_of_lt (by omega), runRemaining_of_lt (by omega), hbehind, hbehind']
        refine Timed.Resembles.bind ?_ fun _ => .refl _
        refine ih (min (cursor + 1 + count) stop - (cursor + 1)) (by omega) (by omega) (by omega)
          htake ?_ value rfl
        intro name args helper hcall
        rw [← take_slice] at hcall
        exact hmovable name args helper (.tail _ (List.mem_of_mem_take hcall))
      · intro flow
        have hbefore (count : Nat) : cursor + 1 + count < stop ↔ cursor' + 1 + count < stop' := by
          omega
        cases flow with
        | next value =>
          exact (resembles_giveWay env hpath (hbefore 0)).bind fun _ => hlater 0 value
        | skip value count =>
          exact (resembles_giveWay env hpath (hbefore count)).bind fun _ => hlater count value
        | exit value =>
          refine (Run.Resembles.note ?_).bind fun _ => .refl _
          rw [hpath]
          rfl

end Binding

end DocTemplate
