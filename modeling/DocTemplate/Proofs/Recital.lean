/-
Rendering one thing after another.

`Template.renderInTurn` renders a template without batches, without a cursor and in no
time.  It goes down the document once, the items of an array and the members of an object
from the first to the last, and at every leaf that is a pipeline it goes along the stages
from the left to the right.  A `map` takes the elements of a collection in their order, each
of them through all stages in front of the boundary; a partial is rendered where it is asked
for.  It lists the helpers that are called, and ends with the first failure.

Helpers may run the stages behind their own and render partials as they like, but they are
to do one thing at a time (`Helper.Serial`): what a helper does at the same time no ceiling
can put in order.  Of the stages behind its own a helper runs the first ones, as many as it
says; here no sum is needed for that, and a helper is to stay below the counts for which there
is none.

* `Helper.serial_builtIn` — the built-in helpers are serial;
* `Catalog.serial_find?` — and so is the catalogue;
* `Json.fill_eq` — going down a document is going through the bindings in it.
-/
import DocTemplate.Catalog.Basic
import DocTemplate.Proofs.Course
import DocTemplate.Proofs.Evaluation
import DocTemplate.Proofs.Nesting
import DocTemplate.Proofs.Substitution
import Mathlib.Tactic.Choose

namespace DocTemplate

open DocTemplate.Text

/-! ### The evaluator -/

namespace Json

/-- What is done for every element of a collection, one after the other. -/
def mapInTurn (f : Json → Course Json) : Json → Course Json
  | .array items => .array <$> items.mapM f
  | .object members => .object <$> members.mapM fun (key, value) => (key, ·) <$> f value
  | other => .fail (.invalid ("Incompatible type for \x60map\x60: " ++ other.kind))

mutual

/-- A part of a template at a path, with what comes of the leaves that are pipelines in
their places, one leaf after the other. -/
def fillBelow (f : Binding → Course Json) (path : Path) : Json → Course Json
  | .string text =>
    match Binding.ofLeaf? text path with
    | some b => f b
    | none => pure (.string text)
  | .array items => .array <$> fillItems f path 0 items
  | .object members => .object <$> fillMembers f path members
  | part => pure part

/-- The items of an array, the first of which has a given index. -/
def fillItems (f : Binding → Course Json) (path : Path) (index : Nat) :
    List Json → Course (List Json)
  | [] => pure []
  | item :: items => do
    let filled ← fillBelow f (path.child (.index index)) item
    let others ← fillItems f path (index + 1) items
    return filled :: others

/-- The members of an object, which stand in the order of their keys. -/
def fillMembers (f : Binding → Course Json) (path : Path) :
    List (String × Json) → Course (List (String × Json))
  | [] => pure []
  | (key, part) :: members => do
    let filled ← fillBelow f (path.child (.name key)) part
    let others ← fillMembers f path members
    return (key, filled) :: others

end

/-- A template with what comes of its leaves in their places; a bare text stays as it is. -/
def fill (f : Binding → Course Json) : Json → Course Json
  | .string text => pure (.string text)
  | template => fillBelow f [] template

end Json

/-- What a partial does for data. -/
abbrev Recital := Json → Course Json

/-- What a helper calls, and what it answers. -/
def Helper.answerInTurn (helper : Helper) (ctx : HelperContext) (name : String)
    (args : List String) (input : Json) : Course Flow :=
  ⟨(helper ctx args input).script.invocations, (helper ctx args input).value.located name ctx.path⟩

namespace Scene

/-- What a helper sees when everything is done in turn. -/
def contextInTurn (s : Scene) (recitals : Entries Recital) (path : Path) (remaining : List Stage)
    (runRemaining : Nat → Json → Course Json) : HelperContext where
  runner := .task
  path := path
  options := s.options
  config := s.config
  observed := s.observed
  remaining := remaining
  runRemaining := fun _ count value => Ending.ofRun (runRemaining count value).toRun
  partial? := fun name => (recitals.find? name).map fun recite data => (recite data).toRun
  resolves := fun name => (s.helpers.find? name).isSome

/-- The stages of a chain, one after the other. -/
def runInTurn (s : Scene) (recitals : Entries Recital) (path : Path) :
    List Stage → Json → Course Json
  | [], input => pure input
  | .literal value :: rest, _ => s.runInTurn recitals path rest value
  | .data source :: rest, input => s.runInTurn recitals path rest (source.resolve input)
  | .call name args :: rest, input =>
    match s.helpers.find? name with
    | none => .fail (.unknownHelper name path.display)
    | some helper => do
      Course.call ⟨path, name, args, input⟩
      if name = "map" ∧ s.helpers.isBuiltIn name then
        let aggregate ← (input.mapInTurn fun element =>
          s.runInTurn recitals path (rest.takeWhile (! Helper.isBoundary ·)) element).locate name
            path
        s.runInTurn recitals path (rest.dropWhile (! Helper.isBoundary ·)) aggregate
      else
        let context := s.contextInTurn recitals path rest fun count value =>
          s.runInTurn recitals path (rest.take count) value
        match ← helper.answerInTurn context name args input with
        | .next value => s.runInTurn recitals path rest value
        | .skip value count => s.runInTurn recitals path (rest.drop count) value
        | .exit value => pure value
termination_by stages => stages.length
decreasing_by
  all_goals simp only [List.length_cons, List.length_drop, List.length_take]
  · omega
  · omega
  · exact Nat.lt_succ_of_le (List.takeWhile_sublist _).length_le
  · exact Nat.lt_succ_of_le (List.dropWhile_sublist _).length_le
  · omega
  · omega
  · omega

/-- Some number of the stages behind a helper, which it runs itself. -/
def remainingInTurn (s : Scene) (recitals : Entries Recital) (path : Path) (rest : List Stage)
    (count : Nat) (value : Json) : Course Json :=
  s.runInTurn recitals path (rest.take count) value

/-- How a chain goes on behind a stage. -/
def followInTurn (s : Scene) (recitals : Entries Recital) (path : Path) (rest : List Stage) :
    Flow → Course Json
  | .next value => s.runInTurn recitals path rest value
  | .skip value count => s.runInTurn recitals path (rest.drop count) value
  | .exit value => pure value

/-- A binding on the data of a render. -/
def evaluateInTurn (s : Scene) (recitals : Entries Recital) (data : Json) (b : Binding) :
    Course Json :=
  match b.stages with
  | [] => pure data
  | .literal value :: rest => s.runInTurn recitals b.path rest value
  | .data source :: rest => s.runInTurn recitals b.path rest (source.resolve data)
  | .call name _ :: _ =>
    .fail (.internal ("binding at " ++ b.path.display ++ " starts with helper '" ++ name ++ "'"))

end Scene

namespace Template

mutual

/-- Render a template, one thing after another. -/
def renderInTurn : Template → Json → Course Json
  | mk scene partials, data => scene.skeleton.fill (scene.evaluateInTurn (recitals partials) data)

/-- What templates with names do as partials. -/
def recitals : List (String × Template) → Entries Recital
  | [] => []
  | (name, t) :: ts => (name, fun data => renderInTurn t data) :: recitals ts

end

theorem find?_recitals (partials : Entries Template) (name : String) :
    (recitals partials).find? name = (partials.find? name).map renderInTurn :=
  Entries.find?_mapped rfl (fun _ _ _ => rfl) partials name

end Template

/-! ### Down a document and through its bindings -/

namespace Course

variable {α : Type}

/-- Behind a course it is known what has come of it. -/
theorem bind_pure_getD (c : Course α) (fallback : α) :
    (c >>= fun _ => pure (c.result.toOption.getD fallback)) = c := by
  obtain ⟨calls, result⟩ := c
  cases result with
  | error e => rfl
  | ok a =>
    show Course.mk (calls ++ []) _ = _
    rw [List.append_nil]
    rfl

end Course

namespace Json

variable (f : Binding → Course Json)

/-- What has come of a binding, if anything has. -/
def valueOf (b : Binding) : Json := (f b).result.toOption.getD .null

/-- Courses for some bindings, one after the other, with what has come of them. -/
theorem mapM_bind_pure (bs : List Binding) :
    (bs.mapM f >>= fun _ => pure (bs.map (valueOf f))) = bs.mapM f := by
  induction bs with
  | nil => rfl
  | cons b bs ih =>
    rw [List.mapM_cons]
    conv => rhs; rw [← (f b).bind_pure_getD .null, ← ih]
    simp only [bind_assoc, pure_bind, List.map_cons, valueOf]

mutual

theorem fillBelow_eq (path : Path) : ∀ part : Json,
    part.fillBelow f path
      = (Binding.below path part).mapM f >>= fun _ => pure (part.substituteBelow (valueOf f) path)
  | .string text => by
    rw [fillBelow, Binding.below, substituteBelow]
    cases Binding.ofLeaf? text path with
    | none => rfl
    | some b =>
      show f b = [b].mapM f >>= fun _ => pure (valueOf f b)
      simp only [List.mapM_cons, List.mapM_nil, bind_assoc, pure_bind]
      exact ((f b).bind_pure_getD .null).symm
  | .array items => by
    rw [fillBelow, Binding.below, substituteBelow, fillItems_eq path 0 items]
    simp
  | .object members => by
    rw [fillBelow, Binding.below, substituteBelow, fillMembers_eq path members]
    simp
  | .null => rfl
  | .bool _ => rfl
  | .number _ => rfl

theorem fillItems_eq (path : Path) (index : Nat) : ∀ items : List Json,
    fillItems f path index items
      = (Binding.belowItems path index items).mapM f
          >>= fun _ => pure (substituteItems (valueOf f) path index items)
  | [] => rfl
  | item :: items => by
    rw [fillItems, Binding.belowItems, substituteItems, fillBelow_eq _ item,
      fillItems_eq path (index + 1) items, List.mapM_append]
    simp

theorem fillMembers_eq (path : Path) : ∀ members : List (String × Json),
    fillMembers f path members
      = (Binding.belowMembers path members).mapM f
          >>= fun _ => pure (substituteMembers (valueOf f) path members)
  | [] => rfl
  | (key, part) :: members => by
    rw [fillMembers, Binding.belowMembers, substituteMembers, fillBelow_eq _ part,
      fillMembers_eq path members, List.mapM_append]
    simp

end

theorem fill_eq (document : Json) :
    document.fill f
      = (Binding.ofTemplate document).mapM f >>= fun _ => pure (document.substitute (valueOf f)) := by
  cases document with
  | string text => rfl
  | null | bool | number => exact fillBelow_eq f [] _
  | array items => exact fillBelow_eq f [] (.array items)
  | object members => exact fillBelow_eq f [] (.object members)

end Json

/-- The bindings of a compiled scene one after the other, and the document that is assembled
from what comes of them. -/
theorem Scene.Compiled.mapM_bind_assemble {s : Scene} (h : s.Compiled) (f : Binding → Course Json) :
    (s.bindings.mapM f >>= fun values => Course.ofExcept (s.assemble values))
      = s.skeleton.fill f := by
  have hassemble : s.assemble (s.bindings.map (Json.valueOf f))
      = .ok (s.skeleton.substitute (Json.valueOf f)) := by
    have := Template.assemble_map (t := .mk s []) (Json.valueOf f) h.wellFormed rfl h.bindings
    rw [h.bindings]
    exact this
  rw [Json.fill_eq, ← h.bindings, ← Json.mapM_bind_pure, bind_assoc, bind_assoc]
  simp only [pure_bind, hassemble]
  rfl

/-! ### Serial helpers -/

/-- A ceiling under which one thing is done at a time. -/
def OneAtATime (ceiling : Option Nat) : Prop := ∃ c, ceiling = some c ∧ c ≤ 1

theorem OneAtATime.capacity_eq {ceiling : Option Nat} (h : OneAtATime ceiling) (total : Nat) :
    capacity ceiling total = 1 := by
  obtain ⟨c, rfl, hc⟩ := h
  rw [capacity, Option.getD_some]
  omega

/-- Two contexts of a stage agree, and what can be run in them takes the same course; of the
partials this is known for those that are used, and of the stages behind the own one for counts
up to all that there are or up to a limit. -/
structure HelperContext.Follows (used : String → Prop) (limit : Nat) (ctx ctx' : HelperContext) :
    Prop where
  path : ctx.path = ctx'.path
  options : ctx.options = ctx'.options
  config : ctx.config = ctx'.config
  observed : ctx.observed = ctx'.observed
  remaining : ctx.remaining = ctx'.remaining
  resolves : ctx.resolves = ctx'.resolves
  elements : OneAtATime ctx.config.mapConcurrency
  runs : ∀ runner runner' count input, count ≤ max ctx.remaining.length limit →
    ∃ c, (ctx.runRemaining runner count input).Takes c
      ∧ (ctx'.runRemaining runner' count input).Takes c
  known : ∀ name, (ctx.partial? name).isSome = (ctx'.partial? name).isSome
  partials : ∀ name, used name → ∀ render render', ctx.partial? name = some render →
    ctx'.partial? name = some render' → ∀ data, ∃ c, (render data).Takes c ∧ (render' data).Takes c

/-- What runs in a context that agrees with one in turn takes the course that it takes there. -/
theorem HelperContext.Follows.takes_inTurn {used : String → Prop} {limit : Nat} {ctx : HelperContext}
    {s : Scene} {recitals : Entries Recital} {path : Path} {rest : List Stage}
    {course : Nat → Json → Course Json}
    (h : ctx.Follows used limit (s.contextInTurn recitals path rest course)) (runner : Runner)
    {count : Nat} (hcount : count ≤ max ctx.remaining.length limit) (value : Json) :
    (ctx.runRemaining runner count value).Takes (course count value) := by
  obtain ⟨c, hleft, hright⟩ := h.runs runner .task count value hcount
  have hc : c = course count value := hright.unique (.ofRun (.toRun _))
  rwa [← hc]

/-- Two calls of a helper do one thing at a time, answer alike, and call the same. -/
structure Timed.Alongside (x y : Timed Outcome) : Prop where
  single : Script.Single x.script
  value : x.value = y.value
  calls : x.script.invocations = y.script.invocations

namespace Helper

variable {used : String → Prop} {limit : Nat} {args : List String}

/-- With some arguments, a helper starts nothing beside what it is waiting for, and its
answer hangs on the courses that are taken by what it runs; it renders no partials but those
that are used, and runs no more stages than there are or than a limit. -/
def Serial (used : String → Prop) (limit : Nat) (args : List String) (helper : Helper) : Prop :=
  ∀ ctx ctx' : HelperContext, ctx.Follows used limit ctx' → ∀ input,
    (helper ctx args input).Alongside (helper ctx' args input)

theorem serial_ofFunction (f : List String → Json → Except Error Json) :
    (ofFunction f).Serial used limit args := by
  intro ctx ctx' _ input
  exact ⟨trivial, rfl, rfl⟩

theorem serial_ofDelayed (delay : List String → Nat) (f : List String → Json → Except Error Json) :
    (ofDelayed delay f).Serial used limit args := by
  intro ctx ctx' _ input
  refine ⟨?_, rfl, rfl⟩
  show Script.Single ((if delay args = 0 then [] else [.wait (delay args)]) ++ [])
  rw [List.append_nil]
  split
  · exact trivial
  · exact ⟨trivial, trivial⟩

theorem serial_passOn : passOn.Serial used limit args := by
  intro ctx ctx' _ input
  exact ⟨trivial, rfl, rfl⟩

section Run

variable {f : HelperContext → List String → Json → Run Flow}

theorem script_ofRun (f : HelperContext → List String → Json → Run Flow) (ctx : HelperContext)
    (args : List String) (input : Json) :
    (ofRun f ctx args input).script = (f ctx args input).timed.script :=
  List.append_nil _

/-- A helper given by a run is serial when the run takes one course in contexts that
agree. -/
theorem serial_ofRun
    (h : ∀ ctx ctx' : HelperContext, ctx.Follows used limit ctx' → ∀ input,
      ∃ c, (f ctx args input).Takes c ∧ (f ctx' args input).Takes c) :
    (ofRun f).Serial used limit args := by
  intro ctx ctx' hctx input
  obtain ⟨c, hleft, hright⟩ := h ctx ctx' hctx input
  have hcalls : (f ctx args input).timed.script.invocations
      = (f ctx' args input).timed.script.invocations :=
    congrArg Course.calls (hleft.course.trans hright.course.symm)
  have hresult : (f ctx args input).result = (f ctx' args input).result :=
    congrArg Course.result (hleft.course.trans hright.course.symm)
  refine ⟨?_, ?_, ?_⟩
  · rw [script_ofRun]
    exact hleft.single
  · rw [value_ofRun, value_ofRun, hresult]
  · rw [script_ofRun, script_ofRun, hcalls]

theorem answerInTurn_ofRun_eq (ctx : HelperContext) (input : Json) (name : String) :
    (ofRun f).answerInTurn ctx name args input
      = (f ctx args input).course.locate name ctx.path := by
  have hvalue : (ofRun f ctx args input).value.located name ctx.path
      = (f ctx args input).result.mapError (·.locate name ctx.path) := by
    rw [value_ofRun]
    cases (f ctx args input).result <;> rfl
  rw [answerInTurn, script_ofRun, hvalue]
  rfl

theorem answerInTurn_ofRun {ctx : HelperContext} {input : Json} {c : Course Flow}
    (h : (f ctx args input).Takes c) (name : String) :
    (ofRun f).answerInTurn ctx name args input = c.locate name ctx.path := by
  rw [answerInTurn_ofRun_eq, h.course]

end Run

theorem serial_renderPartial (h : ∀ name, args.head? = some name → used name) :
    renderPartial.Serial used limit args := by
  refine serial_ofRun ?_
  intro ctx ctx' hctx input
  by_cases hnull : input.isNull
  · simp only [hnull, if_true]
    exact ⟨_, .pure _, .pure _⟩
  · simp only [hnull, Bool.false_eq_true, if_false]
    cases args with
    | nil => exact ⟨_, .throw _, .throw _⟩
    | cons name args =>
      have hknown := hctx.known name
      cases hleft : ctx.partial? name with
      | none =>
        cases hright : ctx'.partial? name with
        | none =>
          simp only [hleft, hright]
          exact ⟨_, .throw _, .throw _⟩
        | some render' => simp [hleft, hright] at hknown
      | some render =>
        cases hright : ctx'.partial? name with
        | none => simp [hleft, hright] at hknown
        | some render' =>
          obtain ⟨c, hrender, hrender'⟩ :=
            hctx.partials name (h name rfl) render render' hleft hright input
          simp only [hleft, hright]
          exact ⟨_, hrender.map Flow.next, hrender'.map Flow.next⟩

/-! ### Elements one after the other -/

theorem takes_runEach {ctx : HelperContext} (h : OneAtATime ctx.config.mapConcurrency) {count : Nat}
    {course : Json → Course Json}
    (hruns : ∀ value, (ctx.runRemaining .task count value).Takes (course value))
    (values : List Json) : (runEach ctx count values).Takes (values.mapM course) :=
  Batch.takes_collect_tasks (h.capacity_eq _) rfl fun value _ => hruns value

theorem map_zip_keys (f : Json → Course Json) (members : List (String × Json)) :
    (Entries.keys members).zip <$> (members.map Prod.snd).mapM f
      = members.mapM fun (key, value) => (key, ·) <$> f value := by
  induction members with
  | nil => rfl
  | cons member members ih =>
    rw [List.mapM_cons, ← ih, List.map_cons, List.mapM_cons]
    simp only [map_eq_pure_bind, bind_assoc, pure_bind]
    rfl

theorem takes_mapElements {ctx : HelperContext} (h : OneAtATime ctx.config.mapConcurrency)
    {count : Nat} {course : Json → Course Json}
    (hruns : ∀ value, (ctx.runRemaining .task count value).Takes (course value)) (input : Json) :
    (mapElements ctx count input).Takes (input.mapInTurn course) := by
  cases input with
  | array items => exact (takes_runEach h hruns items).map Json.array
  | object members =>
    have htakes := (takes_runEach h hruns (members.map Prod.snd)).map
      fun values => Json.object ((Entries.keys members).zip values)
    rw [Json.mapInTurn, ← map_zip_keys, Functor.map_map]
    exact htakes
  | null | bool | number | string => exact .throw _

theorem takes_mapRun {ctx : HelperContext} (h : OneAtATime ctx.config.mapConcurrency)
    {course : Json → Course Json}
    (hruns : ∀ value, (ctx.runRemaining .task
      ((boundary? ctx.remaining).getD ctx.remaining.length) value).Takes (course value))
    (input : Json) :
    (mapRun ctx input).Takes (mapAnswer ctx.remaining <$> input.mapInTurn course) := by
  rw [map_eq_pure_bind]
  exact (takes_mapElements h hruns input).bind fun aggregate => (Run.Takes.log _).andThen (.pure _)

theorem takes_map {ctx : HelperContext} (h : OneAtATime ctx.config.mapConcurrency)
    {course : Json → Course Json}
    (hruns : ∀ value, (ctx.runRemaining .task
      ((boundary? ctx.remaining).getD ctx.remaining.length) value).Takes (course value))
    (args : List String) (input : Json) (name : String) :
    Script.Single (map ctx args input).script
      ∧ map.answerInTurn ctx name args input
        = (mapAnswer ctx.remaining <$> input.mapInTurn course).locate name ctx.path := by
  have htakes := takes_mapRun h hruns input
  rw [map_eq_ofRun, script_ofRun]
  exact ⟨htakes.single, answerInTurn_ofRun (f := fun ctx _ input => mapRun ctx input) htakes name⟩

theorem serial_map : map.Serial used limit args := by
  rw [map_eq_ofRun]
  refine serial_ofRun ?_
  intro ctx ctx' hctx input
  have hcount : (boundary? ctx.remaining).getD ctx.remaining.length
      ≤ max ctx.remaining.length limit :=
    Nat.le_trans (getD_boundary?_le ctx.remaining) (Nat.le_max_left _ _)
  have hruns (value : Json) := hctx.runs .task .task _ value hcount
  choose course hleft hright using hruns
  have hsecond : OneAtATime ctx'.config.mapConcurrency := hctx.config ▸ hctx.elements
  rw [hctx.remaining] at hright
  have htakes := takes_mapRun hsecond hright input
  rw [← hctx.remaining] at htakes
  exact ⟨_, takes_mapRun hctx.elements hleft input, htakes⟩

/-- The built-in helpers are serial, as long as a partial that is rendered is used. -/
theorem serial_builtIn {name : String} {helper : Helper}
    (h : builtIn.find? name = some helper)
    (hused : name = "partial" → ∀ part, args.head? = some part → used part) :
    helper.Serial used limit args := by
  rcases builtIn_cases h with rfl | rfl | ⟨hname, rfl⟩
  · exact serial_map
  · exact serial_passOn
  · exact serial_renderPartial (hused hname)

/-- A call that goes on with the value of something it runs. -/
theorem alongside_proceed {x y : Timed (Ending Json)} {c : Course Json} {f g : Json → Timed Outcome}
    (hx : x.Takes c) (hy : y.Takes c) (hf : ∀ value, (f value).Alongside (g value)) :
    (proceed x f).Alongside (proceed y g) := by
  have hvalue : x.value = y.value := hx.value.trans hy.value.symm
  have hcalls : x.script.invocations = y.script.invocations := hx.calls.trans hy.calls.symm
  have hsingle : Script.Single x.script := hx.single
  obtain ⟨ending, script⟩ := x
  obtain ⟨ending', script'⟩ := y
  obtain rfl : ending = ending' := hvalue
  cases ending with
  | value v =>
    obtain ⟨hlater, hanswer, hothers⟩ := hf v
    refine ⟨Script.single_append.mpr ⟨hsingle, hlater⟩, hanswer, ?_⟩
    show Script.invocations (script ++ (f v).script) = Script.invocations (script' ++ (g v).script)
    rw [Script.invocations_append, Script.invocations_append, hcalls, hothers]
  | failure e =>
    refine ⟨Script.single_append.mpr ⟨hsingle, trivial⟩, rfl, ?_⟩
    show Script.invocations (script ++ []) = Script.invocations (script' ++ [])
    rw [List.append_nil, List.append_nil, hcalls]
  | panic payload =>
    refine ⟨Script.single_append.mpr ⟨hsingle, trivial⟩, rfl, ?_⟩
    show Script.invocations (script ++ []) = Script.invocations (script' ++ [])
    rw [List.append_nil, List.append_nil, hcalls]

end Helper

namespace Catalog

open Helper

variable {used : String → Prop} {limit : Nat} {args : List String}

theorem serial_seeing {f : HelperContext → List String → Json}
    (h : ∀ ctx ctx' : HelperContext, ctx.Follows used limit ctx' → f ctx args = f ctx' args) :
    (seeing f).Serial used limit args := by
  refine serial_ofRun ?_
  intro ctx ctx' hctx input
  simp only [h ctx ctx' hctx]
  exact ⟨_, .pure _, .pure _⟩

section Counting

variable (hlimit : ∀ count, Word.read? (firstArg args) = some count → count ≤ limit)

include hlimit

/-- A helper that takes a count is serial when it is for the counts up to the limit. -/
theorem serial_counting {f : HelperContext → Nat → Json → Timed Outcome}
    (h : ∀ ctx ctx' : HelperContext, ctx.Follows used limit ctx' → ∀ count ≤ limit, ∀ input,
      (f ctx count input).Alongside (f ctx' count input)) :
    (counting f).Serial used limit args := by
  intro ctx ctx' hctx input
  unfold counting
  cases hcount : Word.read? (firstArg args) with
  | none => exact ⟨trivial, rfl, rfl⟩
  | some count => exact h ctx ctx' hctx count (hlimit count hcount) input

theorem serial_running (answer : Json → Nat → Flow) : (running answer).Serial used limit args := by
  refine serial_counting hlimit ?_
  intro ctx ctx' hctx count hcount input
  obtain ⟨c, hleft, hright⟩ := hctx.runs ctx.runner ctx'.runner count input (by omega)
  exact alongside_proceed hleft hright fun _ => ⟨trivial, rfl, rfl⟩

theorem serial_twice : twice.Serial used limit args := by
  refine serial_counting hlimit ?_
  intro ctx ctx' hctx count hcount input
  obtain ⟨c, hleft, hright⟩ := hctx.runs ctx.runner ctx'.runner count input (by omega)
  exact alongside_proceed hleft hright fun _ =>
    alongside_proceed hleft hright fun _ => ⟨trivial, rfl, rfl⟩

theorem serial_steering : ∀ entry ∈ steering, entry.2.Serial used limit args := by
  simp only [steering, List.forall_mem_cons, List.not_mem_nil, false_imp_iff, implies_true,
    and_true]
  refine ⟨?_, ?_, ?_, ?_, ?_, serial_running hlimit _, serial_running hlimit _,
    serial_twice hlimit, ?_, ?_, ?_, ?_, ?_⟩
  · exact serial_seeing fun _ _ h => by rw [h.path]
  · exact serial_seeing fun _ _ h => by rw [h.options]
  · exact serial_counting hlimit fun _ _ _ _ _ _ => ⟨trivial, rfl, rfl⟩
  · exact serial_ofRun fun _ _ _ _ => ⟨_, .pure _, .pure _⟩
  · exact serial_seeing fun _ _ h => by rw [h.remaining]
  · exact serial_seeing fun _ _ h => by rw [h.known]
  · exact serial_seeing fun _ _ h => by rw [h.resolves]
  · exact serial_seeing fun _ _ h => by rw [h.config]
  · refine serial_ofRun fun ctx ctx' h input => ?_
    rw [h.path]
    exact ⟨_, (Run.Takes.note rfl).andThen (.pure _), (Run.Takes.note rfl).andThen (.pure _)⟩
  · exact serial_ofRun fun _ _ _ _ => ⟨_, .throw _, .throw _⟩

/-- The helpers of the catalogue are serial while they ask for no more stages than the limit
allows. -/
theorem serial_of_mem {entry : String × Helper} (h : entry ∈ all) :
    entry.2.Serial used limit args := by
  have hvalues : ∀ entry ∈ values, entry.2.Serial used limit args := by
    simp only [values, List.forall_mem_cons, List.not_mem_nil, false_imp_iff, implies_true,
      and_true]
    refine ⟨?_, ?_, ?_, ?_, ?_, ?_, ?_, ?_, ?_, ?_, ?_⟩ <;> exact serial_ofFunction _
  have hfailures : ∀ entry ∈ failures, entry.2.Serial used limit args := by
    simp only [failures, List.forall_mem_cons, List.not_mem_nil, false_imp_iff, implies_true,
      and_true]
    exact ⟨serial_ofFunction _, serial_ofFunction _, serial_ofFunction _,
      fun _ _ _ _ => ⟨trivial, rfl, rfl⟩, fun _ _ _ _ => ⟨trivial, rfl, rfl⟩⟩
  have hdelayed : ∀ entry ∈ delayed, entry.2.Serial used limit args := by
    simp only [delayed, List.forall_mem_cons, List.not_mem_nil, false_imp_iff, implies_true,
      and_true]
    exact ⟨serial_ofDelayed _ _, serial_ofDelayed _ _⟩
  simp only [all, List.mem_append] at h
  rcases h with ((h | h) | h) | h
  · exact hvalues entry h
  · exact hfailures entry h
  · exact hdelayed entry h
  · exact serial_steering hlimit entry h

theorem serial_find? {name : String} {helper : Helper}
    (h : registry.own.find? name = some helper) : helper.Serial used limit args := by
  obtain ⟨entry, hentry, rfl⟩ := exists_mem_all h
  exact serial_of_mem hlimit hentry

end Counting

end Catalog

end DocTemplate
