/-
Boundaries as sequence points.

Where a `map` stands in front of a boundary, the run up to the boundary ends its chain with
the collection of the results, and the run beyond it skips to the boundary with the same
collection; which of the boundaries behind a `map` is the first one does not change when the
stop moves past a boundary.  A run over a boundary is therefore a run in front of it and,
once that is over, a run from the boundary on.

* `Binding.Reaches` — how two runs with different stops come to the same stage;
* `Binding.reaches_stage`, `Binding.reaches_map` — one stage on the way;
* `Binding.exists_reaches` — all stages on the way, by induction on what is left of it;
* `Binding.runRange_sequencePoint` — what that means at a boundary.

Helpers other than `map` neither look at the stages behind their own nor pass over any of
them (`Helper.HandsOn`).
-/
import DocTemplate.Proofs.Sequence

namespace DocTemplate

open DocTemplate.Text

/-! ### Runs one after the other -/

/-- The value in a flow. -/
def Flow.value : Flow → Json
  | .next value => value
  | .skip value _ => value
  | .exit value => value

theorem Course.bind_congr_of_ok {α β : Type} {x : Course α} {f g : α → Course β}
    (h : ∀ a, x.result = .ok a → f a = g a) : x >>= f = x >>= g := by
  cases hx : x.result with
  | error e => rw [bind_of_error hx, bind_of_error hx]
  | ok a => rw [bind_of_ok hx, bind_of_ok hx, h a hx]

theorem Run.bind_congr_of_ok {α β : Type} {x : Run α} {f g : α → Run β}
    (h : ∀ a, x.result = .ok a → f a = g a) : x >>= f = x >>= g := by
  have hcont : ExceptT.bindCont f x.timed.value = ExceptT.bindCont g x.timed.value := by
    cases hx : x.timed.value with
    | error e => rfl
    | ok a => exact h a hx
  show x.timed.andThen (ExceptT.bindCont f) = x.timed.andThen (ExceptT.bindCont g)
  rw [Timed.andThen, Timed.andThen, hcont]

/-! ### Helpers -/

namespace Helper

/-- A helper that does not look at the stages behind its own and, unless it fails, lets the
chain go on with the next of them. -/
structure HandsOn (helper : Helper) : Prop where
  ignores : ∀ (ctx : HelperContext) (remaining : List Stage)
    (runRemaining : Runner → Nat → Json → Timed (Ending Json)) (args : List String)
    (input : Json),
    helper { ctx with remaining, runRemaining } args input = helper ctx args input
  next : ∀ ctx args input flow, (helper ctx args input).value = .flow flow →
    ∃ value, flow = .next value

theorem HandsOn.next_of_located {helper : Helper} (h : helper.HandsOn) {ctx : HelperContext}
    {args : List String} {input : Json} {name : String} {path : Path} {flow : Flow}
    (hflow : (helper ctx args input).value.located name path = .ok flow) :
    ∃ value, flow = .next value := by
  cases hvalue : (helper ctx args input).value with
  | failure e => simp [hvalue, Outcome.located] at hflow
  | panic payload => simp [hvalue, Outcome.located] at hflow
  | flow answer =>
    rw [hvalue] at hflow
    obtain rfl : answer = flow := Except.ok.inj hflow
    exact h.next ctx args input answer hvalue

theorem ofResult_eq_flow {result : Except Error Flow} {flow : Flow}
    (h : Outcome.ofResult result = .flow flow) : result = .ok flow := by
  cases result with
  | error e => simp [Outcome.ofResult] at h
  | ok flow' => rw [Outcome.flow.inj h]

theorem handsOn_ofFunction (f : List String → Json → Except Error Json) :
    (ofFunction f).HandsOn := by
  refine ⟨fun _ _ _ _ _ => rfl, ?_⟩
  intro ctx args input flow hflow
  have hresult : (f args input).map .next = .ok flow := ofResult_eq_flow hflow
  cases hvalue : f args input with
  | error e => simp [hvalue, Except.map] at hresult
  | ok value =>
    rw [hvalue] at hresult
    exact ⟨value, (Except.ok.inj hresult).symm⟩

theorem handsOn_passOn : passOn.HandsOn := by
  refine ⟨fun _ _ _ _ _ => rfl, ?_⟩
  intro ctx args input flow hflow
  exact ⟨input, (Outcome.flow.inj hflow).symm⟩

theorem handsOn_renderPartial : renderPartial.HandsOn := by
  refine ⟨fun _ _ _ _ _ => rfl, ?_⟩
  intro ctx args input flow hflow
  rw [renderPartial, value_ofRun] at hflow
  have hresult := ofResult_eq_flow hflow
  by_cases hnull : input.isNull
  · simp only [hnull, if_true, Run.result_pure, Except.ok.injEq] at hresult
    exact ⟨_, hresult.symm⟩
  · cases args with
    | nil => simp [hnull] at hresult
    | cons name args =>
      cases hpartial : ctx.partial? name with
      | none => simp [hnull, hpartial] at hresult
      | some render =>
        simp only [hnull, Bool.false_eq_true, if_false, hpartial, Run.result_bind,
          Run.result_pure] at hresult
        cases hrender : (render input).result with
        | error e => simp [hrender, Except.bind] at hresult
        | ok value =>
          rw [hrender] at hresult
          exact ⟨value, (Except.ok.inj hresult).symm⟩

theorem handsOn_builtIn {name : String} {helper : Helper} (hname : name ≠ "map")
    (h : builtIn.find? name = some helper) : helper.HandsOn := by
  have hcases : helper = passOn ∨ helper = renderPartial := by
    simp only [builtIn, Entries.find?] at h
    grind
  rcases hcases with rfl | rfl
  · exact handsOn_passOn
  · exact handsOn_renderPartial

/-- What comes of the elements depends on what is run for them only. -/
theorem mapElements_congr {ctx ctx' : HelperContext} {count : Nat}
    (hrunner : ctx.runner = ctx'.runner) (hpath : ctx.path = ctx'.path)
    (hconfig : ctx.config = ctx'.config) (hobserved : ctx.observed = ctx'.observed)
    (hruns : ∀ value, ctx.runRemaining .task count value = ctx'.runRemaining .task count value)
    (input : Json) : mapElements ctx count input = mapElements ctx' count input := by
  have heach (values : List Json) : runEach ctx count values = runEach ctx' count values := by
    simp only [runEach, elements, hrunner, hpath, hconfig, hobserved, funext hruns]
  cases input with
  | array items => simp only [mapElements, heach]
  | object members => simp only [mapElements, heach]
  | null | bool | number | string => rfl

theorem value_mapAnswer (stages : List Stage) (aggregate : Json) :
    (mapAnswer stages aggregate).value = aggregate := by
  unfold mapAnswer
  cases boundary? stages <;> rfl

/-- What is called by a `map`, and what comes of it. -/
theorem answerInTurn_map (ctx : HelperContext) (args : List String) (input : Json) :
    map.answerInTurn ctx "map" args input
      = (mapElements ctx ((boundary? ctx.remaining).getD ctx.remaining.length) input).course.locate
          "map" ctx.path >>= fun aggregate => pure (mapAnswer ctx.remaining aggregate) := by
  have hcourse : (mapRun ctx input).course
      = (mapElements ctx ((boundary? ctx.remaining).getD ctx.remaining.length) input).course
          >>= fun aggregate => pure (mapAnswer ctx.remaining aggregate) := by
    rw [mapRun, Run.course_bind]
    refine congrArg _ (funext fun aggregate => ?_)
    exact ((Run.Takes.log _).andThen (.pure _)).course
  rw [map_eq_ofRun, answerInTurn_ofRun_eq, hcourse, Course.locate_bind_pure]

end Helper

/-- The stage calls no helper that would look at the stages behind it or pass over some. -/
def Stage.HandsOn (env : Environment) (stage : Stage) : Prop :=
  ∀ name args helper, stage = .call name args → env.helper? name = some helper → helper.HandsOn

namespace Binding

variable {env : Environment} {b : Binding} {middle stop cursor : Nat}

/-! ### Stages -/

theorem course_giveWay_bind {α : Type} (env : Environment) (b : Binding) (stop cursor : Nat)
    (r : Run α) : (b.giveWay env stop cursor >>= fun _ => r).course = r.course := by
  rw [Run.course_bind, (takes_giveWay env b stop cursor).course, pure_bind]

theorem course_perform {ctx : HelperContext} {name : String} {helper : Helper}
    (h : env.helper? name = some helper) (args : List String) (input : Json) :
    ((Stage.call name args).perform env ctx input).course
      = Course.call ⟨ctx.path, name, args, input⟩ >>= fun _ =>
          helper.answerInTurn ctx name args input := by
  rw [perform_call_some h, Run.course_bind, (Run.Takes.invoked ctx.path name args input).course]
  congr 1
  funext _
  have hscript : (ExceptT.lift (helper ctx args input) >>= fun outcome =>
      Run.ofExcept (outcome.located name ctx.path) : Run Flow).timed.script
        = ((helper ctx args input).script ++ []) ++ [] := rfl
  rw [Run.course, hscript, List.append_nil, List.append_nil]
  rfl

/-- Where the stop is, is nothing to a stage that hands its value on. -/
theorem perform_of_handsOn {stage : Stage} (h : stage.HandsOn env)
    (runRemaining runRemaining' : Runner → Nat → Json → Timed (Ending Json)) (input : Json) :
    stage.perform env (b.contextAt env stop cursor runRemaining) input
      = stage.perform env (b.contextAt env middle cursor runRemaining') input := by
  cases stage with
  | literal value => rfl
  | data source => rfl
  | call name args =>
    cases hhelper : env.helper? name with
    | none =>
      rw [perform_call_none hhelper, perform_call_none hhelper]
      rfl
    | some helper =>
      have hsame := (h name args helper rfl hhelper).ignores
        (b.contextAt env middle cursor runRemaining') (b.slice (behind stop cursor) stop)
        runRemaining args input
      rw [perform_call_some hhelper, perform_call_some hhelper, ← hsame]
      rfl

theorem next_of_handsOn {stage : Stage} (h : stage.HandsOn env) {ctx : HelperContext}
    {input : Json} {flow : Flow} (hflow : (stage.perform env ctx input).result = .ok flow) :
    ∃ value, flow = .next value := by
  cases stage with
  | literal value => exact ⟨value, (Except.ok.inj hflow).symm⟩
  | data source => exact ⟨source.resolve input, (Except.ok.inj hflow).symm⟩
  | call name args =>
    rw [result_perform_call] at hflow
    cases hhelper : env.helper? name with
    | none => simp [hhelper] at hflow
    | some helper =>
      simp only [hhelper] at hflow
      exact (h name args helper rfl hhelper).next_of_located hflow

/-- The stages before a stop are those before an earlier one and those behind that. -/
theorem slice_append (hfirst : cursor ≤ middle) (hlast : middle ≤ stop) :
    b.slice cursor middle ++ b.slice middle stop = b.slice cursor stop := by
  have htake := b.take_slice cursor stop (middle - cursor)
  have hdrop := b.drop_slice cursor stop (middle - cursor)
  rw [Nat.add_sub_cancel' hfirst] at htake hdrop
  rw [Nat.min_eq_left hlast] at htake
  rw [← htake, ← hdrop, List.take_append_drop]

/-- The stage at an index is a boundary. -/
def BoundaryAt (b : Binding) (index : Nat) : Prop :=
  ∃ stage, b.stages[index]? = some stage ∧ Helper.isBoundary stage = true

/-- Behind a stage the first boundary before the stop is the first one up to a boundary. -/
theorem boundary?_slice (hboundary : b.BoundaryAt middle) (hfirst : cursor ≤ middle)
    (hlast : middle < stop) :
    Helper.boundary? (b.slice cursor stop)
      = some ((Helper.boundary? (b.slice cursor middle)).getD (b.slice cursor middle).length) := by
  obtain ⟨stage, hs, hstage⟩ := hboundary
  rw [← slice_append hfirst (Nat.le_of_lt hlast), slice_eq_cons hlast hs, Helper.boundary?,
    List.findIdx?_append, List.findIdx?_cons, hstage]
  unfold Helper.boundary?
  cases (b.slice cursor middle).findIdx? Helper.isBoundary with
  | none => simp
  | some k => rfl

/-! ### Two runs on one way -/

/-- Two runs with different stops begin alike, and go on from the same stage with the same
value: the later one is `front` with a run from there on, and but for the log and for giving
way `front` is what the nearer one does up to there. -/
structure Reaches (env : Environment) (b : Binding) (middle stop cursor : Nat) (input : Json)
    (next : Nat) (front : Run Json) : Prop where
  later : b.runFrom env stop cursor input = front >>= b.runFrom env stop next
  nearer : (b.runFrom env middle cursor input).course
    = front.course >>= fun value => (b.runFrom env middle next value).course

theorem Reaches.refl (input : Json) :
    b.Reaches env middle stop cursor input cursor (pure input) :=
  ⟨(pure_bind _ _).symm, (pure_bind _ _).symm⟩

theorem Reaches.trans {next last : Nat} {input : Json} {front : Run Json}
    {between : Json → Run Json} (h : b.Reaches env middle stop cursor input next front)
    (h' : ∀ value, b.Reaches env middle stop next value last (between value)) :
    b.Reaches env middle stop cursor input last (front >>= between) := by
  constructor
  · rw [h.later, bind_assoc]
    congr 1
    funext value
    exact (h' value).later
  · rw [h.nearer, Run.course_bind, bind_assoc]
    congr 1
    funext value
    exact (h' value).nearer

/-- The runs come to the stop of the nearer one as this one does. -/
theorem Reaches.course_eq {input : Json} {front : Run Json}
    (h : b.Reaches env middle stop cursor input middle front) :
    front.course = (b.runFrom env middle cursor input).course := by
  have hnearer := h.nearer
  simp only [runFrom_of_le (Nat.le_refl middle)] at hnearer
  rw [hnearer]
  exact (bind_pure _).symm

theorem Reaches.result_eq {input : Json} {front : Run Json}
    (h : b.Reaches env middle stop cursor input middle front) :
    (b.runFrom env stop cursor input).result
      = (b.runFrom env middle cursor input).result.bind
          fun value => (b.runFrom env stop middle value).result := by
  rw [h.later, Run.result_bind]
  exact congrArg (fun c : Course Json => c.result.bind _) h.course_eq

/-- A stage from which both runs go on at the same place. -/
theorem reaches_of_perform {stage : Stage} {next : Nat} {input : Json} (hcursor : cursor < middle)
    (hlast : middle ≤ stop) (hs : b.stages[cursor]? = some stage)
    (hlater : ∀ flow, (stage.perform env
        (b.contextAt env stop cursor (b.runRemaining env stop cursor)) input).result = .ok flow →
      b.continueFrom env stop cursor flow
        = b.giveWay env stop next >>= fun _ => b.runFrom env stop next flow.value)
    (hnearer : (stage.perform env
        (b.contextAt env middle cursor (b.runRemaining env middle cursor)) input
          >>= b.continueFrom env middle cursor).course
      = (stage.perform env
          (b.contextAt env stop cursor (b.runRemaining env stop cursor)) input).course
            >>= fun flow => (b.runFrom env middle next flow.value).course) :
    ∃ front, b.Reaches env middle stop cursor input next front := by
  refine ⟨stage.perform env (b.contextAt env stop cursor (b.runRemaining env stop cursor)) input
    >>= fun flow => b.giveWay env stop next >>= fun _ => pure flow.value, ?_, ?_⟩
  · rw [runFrom_eq (by omega) hs, Run.bind_congr_of_ok hlater]
    simp only [bind_assoc, pure_bind]
  · rw [runFrom_eq hcursor hs, hnearer, Run.course_bind, bind_assoc]
    congr 1
    funext flow
    rw [course_giveWay_bind]
    exact (pure_bind _ _).symm

theorem reaches_stage {stage : Stage} (hcursor : cursor < middle) (hlast : middle ≤ stop)
    (hs : b.stages[cursor]? = some stage) (hstage : stage.HandsOn env) (input : Json) :
    ∃ front, b.Reaches env middle stop cursor input (cursor + 1) front := by
  refine reaches_of_perform hcursor hlast hs ?_ ?_
  · intro flow hflow
    obtain ⟨value, rfl⟩ := next_of_handsOn hstage hflow
    rfl
  · rw [Run.course_bind, perform_of_handsOn hstage]
    refine Course.bind_congr_of_ok ?_
    intro flow hflow
    obtain ⟨value, rfl⟩ := next_of_handsOn hstage hflow
    exact course_giveWay_bind env b middle (cursor + 1) _

theorem exists_mapAnswer (hmap : env.helper? "map" = some Helper.map) {ctx : HelperContext}
    {args : List String} {input : Json} {flow : Flow}
    (hflow : ((Stage.call "map" args).perform env ctx input).result = .ok flow) :
    ∃ aggregate, flow = Helper.mapAnswer ctx.remaining aggregate := by
  rw [result_perform_call, hmap] at hflow
  simp only [Helper.value_map] at hflow
  generalize (Helper.mapElements ctx _ input).result = elements at hflow
  cases elements with
  | error e => simp [Except.map, Outcome.ofResult, Outcome.located] at hflow
  | ok aggregate => exact ⟨aggregate, (Except.ok.inj hflow).symm⟩

/-- Behind a `map` the run goes on at the first boundary, or is at its stop. -/
theorem course_continueFrom_mapAnswer (hstop : stop ≤ b.stages.length) (hcursor : cursor < stop)
    {count : Nat} (hcount : (Helper.boundary? (b.slice (cursor + 1) stop)).getD
      (b.slice (cursor + 1) stop).length = count) (aggregate : Json) :
    (b.continueFrom env stop cursor
        (Helper.mapAnswer (b.slice (cursor + 1) stop) aggregate)).course
      = (b.runFrom env stop (cursor + 1 + count) aggregate).course := by
  have hlength := b.length_slice (cursor + 1) stop hstop
  rw [Helper.mapAnswer]
  cases hboundary : Helper.boundary? (b.slice (cursor + 1) stop) with
  | some k =>
    rw [hboundary, Option.getD_some] at hcount
    rw [← hcount]
    exact course_giveWay_bind env b stop _ _
  | none =>
    rw [hboundary, Option.getD_none, hlength] at hcount
    rw [runFrom_of_le (by omega)]
    exact ((Run.Takes.log _).andThen (.pure aggregate)).course

/-- A `map` takes the same stages for the elements under both stops when there is a boundary
at the nearer one, and both runs go on behind these. -/
theorem reaches_map (hmap : env.helper? "map" = some Helper.map)
    (hb : b.stages.length < Word.bound) (hboundary : b.BoundaryAt middle)
    (hcursor : cursor < middle) (hlast : middle < stop) (hstop : stop ≤ b.stages.length)
    {args : List String} (hs : b.stages[cursor]? = some (.call "map" args)) (input : Json) :
    ∃ next, cursor < next ∧ next ≤ middle
      ∧ ∃ front, b.Reaches env middle stop cursor input next front := by
  have hbehind : behind middle cursor = cursor + 1 := Nat.min_eq_left hcursor
  have hbehind' : behind stop cursor = cursor + 1 := Nat.min_eq_left (by omega)
  have hfirst := boundary?_slice hboundary (show cursor + 1 ≤ middle by omega) hlast
  generalize hcount : (Helper.boundary? (b.slice (cursor + 1) middle)).getD
    (b.slice (cursor + 1) middle).length = count at hfirst
  have hlength := b.length_slice (cursor + 1) middle (by omega)
  have hcount_le : count ≤ middle - (cursor + 1) := by
    rw [← hlength, ← hcount]
    exact Helper.getD_boundary?_le _
  refine ⟨cursor + 1 + count, by omega, by omega, ?_⟩
  -- The sum is a word, and both stops lie behind it.
  have hruns (last : Nat) (hle : middle ≤ last) (hbehind : behind last cursor = cursor + 1)
      (value : Json) : b.runRemaining env last cursor .task count value
        = Ending.ofRun (b.runFrom { env with runner := .task } (cursor + 1 + count) (cursor + 1)
            value) := by
    rw [runRemaining_of_lt (by omega), hbehind, clippedStop, Nat.min_eq_left (by omega)]
  have helements : Helper.mapElements
        (b.contextAt env stop cursor (b.runRemaining env stop cursor)) count input
      = Helper.mapElements
          (b.contextAt env middle cursor (b.runRemaining env middle cursor)) count input := by
    refine Helper.mapElements_congr ?_ ?_ ?_ ?_ ?_ input
    · rfl
    · rfl
    · rfl
    · rfl
    intro value
    exact (hruns stop (by omega) hbehind' value).trans (hruns middle (by omega) hbehind value).symm
  -- The later run skips to a boundary in any case; the nearer one exits where the first
  -- boundary is at its stop.
  refine reaches_of_perform hcursor (by omega) hs ?_ ?_
  · intro flow hflow
    obtain ⟨aggregate, rfl⟩ := exists_mapAnswer hmap hflow
    simp only [contextAt, hbehind', Helper.mapAnswer, hfirst]
    rfl
  · have hremaining : (b.contextAt env middle cursor (b.runRemaining env middle cursor)).remaining
        = b.slice (cursor + 1) middle := by
      rw [← hbehind]
      rfl
    have hremaining' : (b.contextAt env stop cursor (b.runRemaining env stop cursor)).remaining
        = b.slice (cursor + 1) stop := by
      rw [← hbehind']
      rfl
    rw [Run.course_bind, course_perform hmap, course_perform hmap, Helper.answerInTurn_map,
      Helper.answerInTurn_map, hremaining, hremaining', hcount, hfirst, Option.getD_some,
      helements]
    simp only [bind_assoc, pure_bind, Helper.value_mapAnswer,
      course_continueFrom_mapAnswer (show middle ≤ b.stages.length by omega) hcursor hcount]
    rfl

/-- Up to a stage in front of a later stop a run comes in the same way under both stops: the
stages on the way hand their values on, or are maps with a boundary at the nearer stop. -/
theorem exists_reaches (hb : b.stages.length < Word.bound) (hcursor : cursor ≤ middle)
    (hlast : middle ≤ stop) (hstop : stop ≤ b.stages.length)
    (hstages : ∀ stage ∈ b.slice cursor middle, stage.HandsOn env
      ∨ stage.helperName? = some "map" ∧ env.helper? "map" = some Helper.map
        ∧ b.BoundaryAt middle) (input : Json) :
    ∃ front, b.Reaches env middle stop cursor input middle front := by
  rcases Nat.eq_or_lt_of_le hlast with rfl | hlt
  -- Under one stop there is nothing to compare, and a `map` may well exit.
  · have hnothing : b.runFrom env middle middle = pure := funext (runFrom_of_le (Nat.le_refl _))
    refine ⟨b.runFrom env middle cursor input, ?_, ?_⟩
    · rw [hnothing, bind_pure]
    · rw [hnothing]
      exact (bind_pure _).symm
  · -- Every stage leads to one that lies nearer to the stop.
    induction hn : middle - cursor using Nat.strongRecOn generalizing cursor input with
    | ind n ih =>
      rcases Nat.eq_or_lt_of_le hcursor with rfl | hbefore
      · exact ⟨_, .refl input⟩
      · have hs := List.getElem?_eq_getElem (show cursor < b.stages.length by omega)
        generalize b.stages[cursor] = stage at hs
        have hslice := slice_eq_cons hbefore hs
        have hstep : ∃ next, cursor < next ∧ next ≤ middle
            ∧ ∃ front, b.Reaches env middle stop cursor input next front := by
          rcases hstages stage (hslice ▸ List.mem_cons_self) with hhands | ⟨hname, hmap, hboundary⟩
          · exact ⟨cursor + 1, by omega, by omega, reaches_stage hbefore hlast hs hhands input⟩
          · cases stage with
            | literal value => simp [Stage.helperName?] at hname
            | data source => simp [Stage.helperName?] at hname
            | call name args =>
              obtain rfl : name = "map" := Option.some.inj hname
              exact reaches_map hmap hb hboundary hbefore hlt hstop hs input
        obtain ⟨next, hnext, hle, front, hfront⟩ := hstep
        have hrest (stage : Stage) (hmem : stage ∈ b.slice next middle) :
            stage ∈ b.slice cursor middle := by
          have hdrop := b.drop_slice cursor middle (next - cursor)
          rw [Nat.add_sub_cancel' (Nat.le_of_lt hnext)] at hdrop
          exact List.mem_of_mem_drop (hdrop ▸ hmem)
        have hlater (value : Json) := ih (middle - next) (by omega) hle
          (fun stage hmem => hstages stage (hrest stage hmem)) value rfl
        choose between hbetween using hlater
        exact ⟨_, hfront.trans hbetween⟩

/-! ### Boundaries -/

/-- The run over the call of a helper is over with everything in front of the call before it
makes the call. -/
structure SequencePoint (env : Environment) (b : Binding) (first middle last : Nat)
    (name : String) (args : List String) (input : Json) : Prop where
  succeeds : ∀ result, (b.runRange env first last input).result = .ok result
    ↔ ∃ value, (b.runRange env first middle input).result = .ok value
      ∧ (b.runRange env middle last value).result = .ok result
  fails : ∀ e, (b.runRange env first last input).result = .error e
    ↔ (b.runRange env first middle input).result = .error e
      ∨ ∃ value, (b.runRange env first middle input).result = .ok value
        ∧ (b.runRange env middle last value).result = .error e
  /-- What is called in front is called in a run of its own, which ends before the other
  begins. -/
  closes : ∃ front : Run Json, front.course = (b.runRange env first middle input).course
    ∧ b.runRange env first last input = front >>= b.runRange env middle last
  /-- The call is made once, on all that comes out in front. -/
  once : middle < last → ∀ helper, env.helper? name = some helper → ∀ aggregate,
    (b.runRange env middle last aggregate).course
      = Course.call ⟨b.path, name, args, aggregate⟩ >>= fun _ =>
          helper.answerInTurn (env.lastContext b.path) name args aggregate >>= fun flow =>
            (b.runRange env (middle + 1) last flow.value).course

/-- A helper that hands its value on is called once, and the run goes on behind it. -/
theorem course_runFrom_of_handsOn {name : String} {args : List String} {helper : Helper}
    (hcursor : cursor < stop) (hs : b.stages[cursor]? = some (.call name args))
    (hfind : env.helper? name = some helper) (hhelper : helper.HandsOn) (input : Json) :
    (b.runFrom env stop cursor input).course
      = Course.call ⟨b.path, name, args, input⟩ >>= fun _ =>
          helper.answerInTurn (env.lastContext b.path) name args input >>= fun flow =>
            (b.runFrom env stop (cursor + 1) flow.value).course := by
  have hanswer : helper.answerInTurn
        (b.contextAt env stop cursor (b.runRemaining env stop cursor)) name args input
      = helper.answerInTurn (env.lastContext b.path) name args input := by
    have hsame := hhelper.ignores (env.lastContext b.path) (b.slice (behind stop cursor) stop)
      (b.runRemaining env stop cursor) args input
    rw [Helper.answerInTurn, Helper.answerInTurn, ← hsame]
    rfl
  rw [runFrom_eq hcursor hs, Run.course_bind, course_perform hfind, hanswer, bind_assoc]
  refine congrArg _ (funext fun _ => Course.bind_congr_of_ok ?_)
  intro flow hflow
  obtain ⟨value, rfl⟩ := hhelper.next_of_located hflow
  exact course_giveWay_bind env b stop (cursor + 1) _

end Binding

/-- The helper `map` is the built-in one, and no other looks at the stages behind its own or
passes over any of them. -/
structure Environment.HandsOn (env : Environment) : Prop where
  map : env.helper? "map" = some Helper.map
  others : ∀ name helper, name ≠ "map" → env.helper? name = some helper → helper.HandsOn

namespace Binding

variable {env : Environment} {b : Binding}

theorem handsOn_or_map (henv : env.HandsOn) (stage : Stage) :
    stage.HandsOn env ∨ stage.helperName? = some "map" := by
  by_cases hname : stage.helperName? = some "map"
  · exact .inr hname
  · refine .inl ?_
    rintro name args helper rfl hfind
    refine henv.others name helper ?_ hfind
    rintro rfl
    exact hname rfl

/-- The stages of a range with a boundary among them succeed when those in front of the
boundary do and those from the boundary on succeed with what comes out there, and they fail
when one of the two fails: in front of the boundary everything, maps inside of maps included,
is over before the boundary is called on the whole collection.  There are no more stages than
there are words. -/
theorem runRange_sequencePoint (henv : env.HandsOn) (hb : b.stages.length < Word.bound)
    {first middle last : Nat} (hfirst : first ≤ middle) (hlast : middle ≤ last) {name : String}
    {args : List String} (hs : b.stages[middle]? = some (.call name args))
    (hname : name ∈ Helper.boundaryNames) (input : Json) :
    b.SequencePoint env first middle last name args input := by
  have hlt : middle < b.stages.length := (List.getElem?_eq_some_iff.mp hs).1
  have hboundary : b.BoundaryAt middle := by
    refine ⟨_, hs, ?_⟩
    simpa [Helper.isBoundary, Stage.helperName?] using hname
  have hfront : b.runRange env first middle = b.runFrom env middle first := by
    funext input
    rw [runRange, Nat.min_eq_left (Nat.le_of_lt hlt)]
  obtain ⟨front, hreaches⟩ := exists_reaches hb hfirst
    (show middle ≤ min last b.stages.length by omega) (Nat.min_le_right _ _)
    (fun stage _ => (handsOn_or_map henv stage).imp_right fun h => ⟨h, henv.map, hboundary⟩) input
  have hresult : (b.runRange env first last input).result
      = (b.runRange env first middle input).result.bind
          fun value => (b.runRange env middle last value).result := by
    rw [hfront]
    exact hreaches.result_eq
  refine ⟨?_, ?_, ⟨front, hfront ▸ hreaches.course_eq, hreaches.later⟩, ?_⟩
  · intro result
    rw [hresult]
    cases (b.runRange env first middle input).result <;> simp [Except.bind]
  · intro e
    rw [hresult]
    cases (b.runRange env first middle input).result <;> simp [Except.bind]
  · intro hlater helper hfind aggregate
    have hne : name ≠ "map" := by
      rintro rfl
      simp [Helper.boundaryNames] at hname
    exact course_runFrom_of_handsOn (by omega) hs hfind (henv.others name helper hne hfind)
      aggregate

/-- The built-in helpers alone. -/
def builtInEnvironment : Environment where
  runner := .foreground
  helper? := Registry.initial.find?
  options := .null
  config := .standard
  observed := false
  partial? := fun _ => none

theorem handsOn_builtInEnvironment : builtInEnvironment.HandsOn := by
  refine ⟨by cbv, ?_⟩
  intro name helper hname hfind
  exact Helper.handsOn_builtIn hname hfind

/-- A chain with a boundary behind a `map` inside another, and an earlier boundary. -/
def joinedChain : Binding where
  path := [.name "a"]
  expression := ""
  stages := [.call "map" [], .data ⟨["rows"]⟩, .call "collect" [], .call "map" [],
    .call "map" [], .data ⟨["n"]⟩, .call "reduce" [], .data ⟨["1"]⟩]

theorem runRange_sequencePoint_joinedChain :
    builtInEnvironment.HandsOn ∧ joinedChain.stages.length < Word.bound
      ∧ joinedChain.stages[6]? = some (.call "reduce" []) ∧ "reduce" ∈ Helper.boundaryNames
      ∧ (joinedChain.runRange builtInEnvironment 0 8 (.array [
            .object [("rows", .array [.object [("n", .bool true)], .null])],
            .object [("rows", .array [.object [("n", .bool false)]])]])).result
        = .ok (.array [.bool false]) := by
  have hlength : joinedChain.stages.length < Word.bound := by decide
  have hs : joinedChain.stages[6]? = some (.call "reduce" []) := rfl
  have hname : "reduce" ∈ Helper.boundaryNames := by decide
  refine ⟨handsOn_builtInEnvironment, hlength, hs, hname, ?_⟩
  have hpoint := runRange_sequencePoint handsOn_builtInEnvironment hlength
    (show 0 ≤ 6 by decide) (show 6 ≤ 8 by decide) hs hname (.array [
      .object [("rows", .array [.object [("n", .bool true)], .null])],
      .object [("rows", .array [.object [("n", .bool false)]])]])
  refine (hpoint.succeeds _).mpr ⟨.array [.array [.bool true, .null], .array [.bool false]], ?_, ?_⟩
  · cbv
  · cbv

end Binding

end DocTemplate
