/-
Ceilings of one.

Under ceilings of zero or one the bindings of a template and the elements of a collection
wait for each other.  When its helpers do one thing at a time as well, a render calls what
`Template.renderInTurn` calls, in the same order, and what comes of it is the same.  Ceilings
have no power over what a helper starts on its own, nor over a sum that is no word.

* `Binding.takes_runFrom` — running stages with a cursor, by induction on what is left up to
  the stop;
* `Template.takes_renderBy` — rendering a template, by induction on the partials that are
  used in it;
* `Template.render_in_turn` — what is called in a render, and what comes of it;
* `Template.not_always_in_turn` — a helper that does two things at the same time, and one that
  asks for more stages than can be counted.
-/
import DocTemplate.Proofs.Recital
import Mathlib.Data.List.Basic

namespace DocTemplate

open DocTemplate.Text

/-! ### Chains -/

/-- A compiled scene in which one thing is done at a time, whatever partials are used. -/
structure Scene.OneByOne (used : String → Prop) (s : Scene) : Prop where
  compiled : s.Compiled
  bindings : OneAtATime s.config.concurrency
  elements : OneAtATime s.config.mapConcurrency
  /-- There are no more stages than there are words. -/
  stages : ∀ b ∈ s.bindings, b.stages.length < Word.bound
  /-- A helper asks for no more stages than can be counted behind its own. -/
  helpers : ∀ b ∈ s.bindings, ∀ (i : Nat) name args helper, b.stages[i]? = some (.call name args) →
    s.helpers.own.find? name = some helper → helper.Serial used (Word.greatest - (i + 1)) args
  partials : s.helpers.own.find? "partial" = none → ∀ b ∈ s.bindings, ∀ name args,
    .call "partial" (name :: args) ∈ b.stages → used name

/-- Partials that are used take the courses under their names. -/
def PartialsTake (used : String → Prop) (partials : Entries Renderer)
    (recitals : Entries Recital) : Prop :=
  ∀ name, partials.find? name = none ∧ recitals.find? name = none
    ∨ ∃ render recital, partials.find? name = some render ∧ recitals.find? name = some recital
      ∧ (used name → ∀ data, (render data).Takes (recital data))

namespace Scene

variable {used : String → Prop} {s : Scene} {partials : Entries Renderer}
  {recitals : Entries Recital}

theorem OneByOne.serial (h : s.OneByOne used) {b : Binding} (hb : b ∈ s.bindings) {i : Nat}
    {name : String} {args : List String} (hcall : b.stages[i]? = some (.call name args))
    {helper : Helper} (hfind : s.helpers.find? name = some helper) :
    helper.Serial used (Word.greatest - (i + 1)) args := by
  rcases Option.or_eq_some_iff.mp hfind with hown | ⟨hnone, hbuiltIn⟩
  · exact h.helpers b hb i name args helper hcall hown
  · refine Helper.serial_builtIn hbuiltIn ?_
    rintro rfl part hpart
    obtain ⟨others, rfl⟩ := List.head?_eq_some_iff.mp hpart
    exact h.partials hnone b hb part others (List.mem_of_getElem? hcall)

theorem find?_map_of_isBuiltIn (h : s.helpers.isBuiltIn "map" = true) :
    s.helpers.find? "map" = some Helper.map := by
  simp only [Registry.isBuiltIn, Bool.and_eq_true, Bool.not_eq_true', Entries.contains,
    Option.isSome_eq_false_iff, Option.isNone_iff_eq_none] at h
  rw [Registry.find?, h.1]
  rfl

/-- The context of a stage in a chain and the one in which it is performed in turn. -/
theorem follows_contextAt (h : s.OneByOne used) (hpartials : PartialsTake used partials recitals)
    (b : Binding) (runner : Runner) {limit stop cursor : Nat} (hcursor : cursor < stop)
    {runRemaining : Runner → Nat → Json → Timed (Ending Json)} {course : Nat → Json → Course Json}
    (hruns : ∀ runner count value, count ≤ max (b.slice (cursor + 1) stop).length limit →
      (runRemaining runner count value).Takes (course count value)) :
    (b.contextAt { s.environment partials with runner } stop cursor runRemaining).Follows used limit
      (s.contextInTurn recitals b.path (b.slice (cursor + 1) stop) course) := by
  have hbehind : Binding.behind stop cursor = cursor + 1 := Nat.min_eq_left hcursor
  have hremaining : b.slice (Binding.behind stop cursor) stop = b.slice (cursor + 1) stop := by
    rw [hbehind]
  refine ⟨rfl, rfl, rfl, rfl, hremaining, rfl, h.elements, ?_, ?_, ?_⟩
  · intro runner _ count value hcount
    replace hcount : count ≤ max (b.slice (Binding.behind stop cursor) stop).length limit := hcount
    rw [hremaining] at hcount
    exact ⟨_, hruns runner count value hcount, .ofRun (.toRun _)⟩
  · intro name
    show (partials.find? name).isSome = ((recitals.find? name).map _).isSome
    rw [Option.isSome_map]
    rcases hpartials name with ⟨hleft, hright⟩ | ⟨render, recital, hleft, hright, _⟩
    · rw [hleft, hright]
      rfl
    · rw [hleft, hright]
      rfl
  · intro name hused render render' hrender hrender' data
    replace hrender : partials.find? name = some render := hrender
    replace hrender' : (recitals.find? name).map (fun recite data => (recite data).toRun)
      = some render' := hrender'
    rcases hpartials name with ⟨hleft, _⟩ | ⟨_, recital, hleft, hright, htakes⟩
    · simp [hleft] at hrender
    · obtain rfl := Option.some.inj (hleft.symm.trans hrender)
      rw [hright] at hrender'
      obtain rfl := Option.some.inj hrender'
      exact ⟨_, htakes hused data, .toRun _⟩

/-- What the helper of a stage calls, and what it answers: a `map` has the elements take
the stages in front of the first boundary. -/
def answerInTurn (s : Scene) (recitals : Entries Recital) (path : Path) (rest : List Stage)
    (helper : Helper) (name : String) (args : List String) (input : Json) : Course Flow :=
  if name = "map" ∧ s.helpers.isBuiltIn name then
    (Helper.mapAnswer rest <$> input.mapInTurn
      (s.runInTurn recitals path (rest.takeWhile (! Helper.isBoundary ·)))).locate name path
  else
    helper.answerInTurn (s.contextInTurn recitals path rest (s.remainingInTurn recitals path rest))
      name args input

/-- A `map` with a boundary behind it goes on there, and ends the chain otherwise. -/
theorem followInTurn_mapAnswer (path : Path) (rest : List Stage) (aggregate : Json) :
    s.followInTurn recitals path rest (Helper.mapAnswer rest aggregate)
      = s.runInTurn recitals path (rest.dropWhile (! Helper.isBoundary ·)) aggregate := by
  have hlength := Helper.length_takeWhile_not_isBoundary rest
  rw [← Binding.drop_length_takeWhile, hlength, Helper.mapAnswer]
  cases Helper.boundary? rest with
  | some k => rfl
  | none =>
    rw [Option.getD_none, List.drop_length, runInTurn]
    rfl

theorem runInTurn_call {name : String} {helper : Helper}
    (hfind : s.helpers.find? name = some helper) (path : Path) (args : List String)
    (rest : List Stage) (input : Json) :
    s.runInTurn recitals path (.call name args :: rest) input
      = Course.call ⟨path, name, args, input⟩ >>= fun _ =>
          s.answerInTurn recitals path rest helper name args input
            >>= s.followInTurn recitals path rest := by
  rw [runInTurn, hfind]
  simp only
  congr 1
  funext _
  unfold answerInTurn
  split
  next =>
    rw [map_eq_pure_bind, Course.locate_bind_pure, bind_assoc]
    congr 1
    funext aggregate
    rw [pure_bind, followInTurn_mapAnswer]
  next => rfl

end Scene

namespace Binding

variable {used : String → Prop} {s : Scene} {partials : Entries Renderer}
  {recitals : Entries Recital} {b : Binding}

theorem takes_giveWay (env : Environment) (b : Binding) (stop cursor : Nat) :
    (b.giveWay env stop cursor).Takes (pure ()) := by
  unfold giveWay
  split
  · exact (Run.Takes.note rfl).andThen ⟨⟨trivial, trivial⟩, rfl⟩
  · exact .pure ()

theorem takes_answer {helper : Helper} {ctx : HelperContext} {args : List String} {input : Json}
    (h : Script.Single (helper ctx args input).script) (name : String) :
    (ExceptT.lift (helper ctx args input) >>= fun outcome =>
      Run.ofExcept (outcome.located name ctx.path) : Run Flow).Takes
        (helper.answerInTurn ctx name args input) := by
  have hscript : (ExceptT.lift (helper ctx args input) >>= fun outcome =>
      Run.ofExcept (outcome.located name ctx.path) : Run Flow).timed.script
        = ((helper ctx args input).script ++ []) ++ [] := rfl
  constructor
  · rw [hscript, List.append_nil, List.append_nil]
    exact h
  · rw [Run.course, hscript, List.append_nil, List.append_nil]
    rfl

/-- Of the stages behind a helper those that it runs itself are the first. -/
theorem slice_clippedStop (b : Binding) {stop cursor : Nat} (hcursor : cursor < stop)
    (count : Nat) :
    b.slice (behind stop cursor) (clippedStop stop (behind stop cursor) count)
      = (b.slice (cursor + 1) stop).take count := by
  rw [show behind stop cursor = cursor + 1 from Nat.min_eq_left hcursor, clippedStop, take_slice]

section Stage

variable {env : Environment} {ctx : HelperContext} {name : String} {args : List String}
  {input : Json}

theorem take_front (rest : List Stage) :
    rest.take ((Helper.boundary? rest).getD rest.length)
      = rest.takeWhile (! Helper.isBoundary ·) := by
  rw [← Helper.length_takeWhile_not_isBoundary]
  exact (List.prefix_iff_eq_take.mp (List.takeWhile_prefix _)).symm

theorem takes_perform (input : Json) (henv : env.helper? = s.helpers.find?) {helper : Helper}
    {limit : Nat} (hserial : helper.Serial used limit args)
    (hfind : s.helpers.find? name = some helper) {path : Path} {rest : List Stage}
    (hctx : ctx.Follows used limit
      (s.contextInTurn recitals path rest (s.remainingInTurn recitals path rest))) :
    ((Stage.call name args).perform env ctx input).Takes
      (Course.call ⟨path, name, args, input⟩ >>= fun _ =>
        s.answerInTurn recitals path rest helper name args input) := by
  have hpath : ctx.path = path := hctx.path
  have hremaining : ctx.remaining = rest := hctx.remaining
  rw [perform_call_some (henv ▸ hfind), ← hpath]
  refine (Run.Takes.invoked ctx.path name args input).bind fun _ => ?_
  unfold Scene.answerInTurn
  split
  next hmap =>
    obtain ⟨rfl, hbuiltIn⟩ := hmap
    obtain rfl : Helper.map = helper :=
      Option.some.inj ((Scene.find?_map_of_isBuiltIn hbuiltIn).symm.trans hfind)
    have helements (value : Json) : (ctx.runRemaining .task
        ((Helper.boundary? ctx.remaining).getD ctx.remaining.length) value).Takes
          (s.runInTurn recitals ctx.path (rest.takeWhile (! Helper.isBoundary ·)) value) := by
      have hcount := Nat.le_trans (Helper.getD_boundary?_le ctx.remaining) (Nat.le_max_left _ limit)
      have htakes := hctx.takes_inTurn .task hcount value
      rw [Scene.remainingInTurn, hremaining, take_front] at htakes
      rw [hremaining, hpath]
      exact htakes
    obtain ⟨hsingle, hanswer⟩ := Helper.takes_map hctx.elements helements args input "map"
    rw [hremaining] at hanswer
    rw [← hanswer]
    exact takes_answer hsingle "map"
  next =>
    obtain ⟨hsingle, hvalue, hcalls⟩ := hserial ctx _ hctx input
    have hanswer : helper.answerInTurn ctx name args input
        = helper.answerInTurn (s.contextInTurn recitals ctx.path rest
            (s.remainingInTurn recitals ctx.path rest)) name args input := by
      rw [Helper.answerInTurn, Helper.answerInTurn, hpath, hvalue, hcalls]
      rfl
    rw [← hanswer]
    exact takes_answer hsingle name

/-- A stage with the stages behind it, when these take their courses. -/
theorem takes_stage (h : s.OneByOne used) (henv : env.helper? = s.helpers.find?)
    (hb : b ∈ s.bindings) {i : Nat} {stage : Stage} (hstage : b.stages[i]? = some stage)
    {rest : List Stage} (hctx : ctx.Follows used (Word.greatest - (i + 1))
      (s.contextInTurn recitals b.path rest (s.remainingInTurn recitals b.path rest)))
    {next : Flow → Run Json}
    (hnext : ∀ flow, (next flow).Takes (s.followInTurn recitals b.path rest flow)) :
    (stage.perform env ctx input >>= next).Takes
      (s.runInTurn recitals b.path (stage :: rest) input) := by
  cases stage with
  | literal value =>
    have htakes := (Run.Takes.pure (Flow.next value)).bind hnext
    rw [pure_bind] at htakes
    rw [Scene.runInTurn]
    exact htakes
  | data source =>
    have htakes := (Run.Takes.pure (Flow.next (source.resolve input))).bind hnext
    rw [pure_bind] at htakes
    rw [Scene.runInTurn]
    exact htakes
  | call name args =>
    cases hfind : s.helpers.find? name with
    | none =>
      have hpath : ctx.path = b.path := hctx.path
      rw [perform_call_none (henv ▸ hfind), hpath, Scene.runInTurn, hfind]
      exact (Run.Takes.throw _).bind hnext
    | some helper =>
      have hserial := h.serial hb hstage hfind
      have htakes := (takes_perform input henv hserial hfind hctx).bind hnext
      rw [bind_assoc] at htakes
      rw [Scene.runInTurn_call hfind]
      exact htakes

end Stage

/-- Running stages with a cursor takes the course of these stages, one after the other. -/
theorem takes_runFrom (h : s.OneByOne used) (hpartials : PartialsTake used partials recitals)
    (hb : b ∈ s.bindings) (runner : Runner) {stop : Nat}
    (hstop : stop ≤ b.stages.length) (cursor : Nat) (input : Json) :
    (b.runFrom { s.environment partials with runner } stop cursor input).Takes
      (s.runInTurn recitals b.path (b.slice cursor stop) input) := by
  -- What a stage runs itself lies behind it, nearer to the stop.
  induction hn : stop - cursor using Nat.strongRecOn generalizing runner stop cursor input with
  | ind n ih =>
    by_cases hcursor : stop ≤ cursor
    · rw [runFrom_of_le hcursor, slice_eq_nil hcursor, Scene.runInTurn]
      exact .pure input
    · have hlt : cursor < stop := by omega
      have hlater (next : Nat) (hnext : cursor < next) (value : Json) :=
        ih (stop - next) (by omega) runner hstop next value rfl
      have hnext (flow : Flow) :
          (b.continueFrom { s.environment partials with runner } stop cursor flow).Takes
            (s.followInTurn recitals b.path (b.slice (cursor + 1) stop) flow) := by
        cases flow with
        | next value => exact (takes_giveWay _ b _ _).andThen (hlater _ (by omega) value)
        | skip value count =>
          rw [Scene.followInTurn, drop_slice]
          exact (takes_giveWay _ b _ _).andThen (hlater _ (by omega) value)
        | exit value => exact (Run.Takes.log _).andThen (.pure value)
      have hs := List.getElem?_eq_getElem (show cursor < b.stages.length by omega)
      have hlength := b.length_slice (cursor + 1) stop hstop
      have hwords := h.stages b hb
      have hruns (runner' : Runner) (count : Nat) (value : Json)
          (hcount : count ≤ max (b.slice (cursor + 1) stop).length
            (Word.greatest - (cursor + 1))) :
          (b.runRemaining { s.environment partials with runner } stop cursor runner' count
            value).Takes (s.remainingInTurn recitals b.path (b.slice (cursor + 1) stop) count
              value) := by
        have hbehind : behind stop cursor = cursor + 1 := Nat.min_eq_left hlt
        have hclipped := clippedStop_le stop (behind stop cursor) count
        have hsum : behind stop cursor + count < Word.bound := by
          rw [Word.greatest] at hcount
          omega
        have htakes := ih (clippedStop stop (behind stop cursor) count - behind stop cursor)
          (by omega) runner' (by omega) (behind stop cursor) value rfl
        rw [slice_clippedStop b hlt] at htakes
        rw [runRemaining_of_lt hsum]
        exact .ofRun htakes
      have hctx := Scene.follows_contextAt h hpartials b runner hlt hruns
      rw [runFrom_eq hlt hs, slice_eq_cons hlt hs]
      exact takes_stage h rfl hb hs hctx hnext

theorem takes_evaluate (h : s.OneByOne used) (hpartials : PartialsTake used partials recitals)
    (hb : b ∈ s.bindings) (data : Json) :
    (b.evaluate (s.environment partials) data).Takes (s.evaluateInTurn recitals data b) := by
  have hcontinue {stage : Stage} {rest : List Stage} (hstages : b.stages = stage :: rest)
      (value : Json) : (evaluate.continueWith (s.environment partials) b value).Takes
        (s.runInTurn recitals b.path rest value) := by
    have hrest : b.slice 1 b.stages.length = rest := by
      rw [slice, List.take_length, hstages]
      rfl
    have htakes := takes_runFrom h hpartials hb .task (Nat.le_refl _) 1 value
    rw [hrest] at htakes
    rw [evaluate.continueWith, runRange, Nat.min_self]
    exact (takes_giveWay _ b _ _).andThen htakes
  rw [evaluate, Scene.evaluateInTurn]
  cases hstages : b.stages with
  | nil => exact .pure data
  | cons stage rest =>
    cases stage with
    | literal value => exact hcontinue hstages value
    | data source => exact hcontinue hstages (source.resolve data)
    | call name args => exact .throw _

end Binding

/-! ### Templates -/

theorem Scene.takes_render {used : String → Prop} {s : Scene} {partials : Entries Renderer}
    {recitals : Entries Recital} (h : s.OneByOne used)
    (hpartials : PartialsTake used partials recitals) (runner : Runner) (data : Json) :
    (s.render runner partials data).Takes (s.skeleton.fill (s.evaluateInTurn recitals data)) := by
  have hvalues : (s.batch runner partials data).collect.Takes
      (s.bindings.mapM (s.evaluateInTurn recitals data)) :=
    Batch.takes_collect_tasks (h.bindings.capacity_eq _) rfl fun b hb =>
      .ofRun (Binding.takes_evaluate h hpartials hb data)
  rw [← h.compiled.mapM_bind_assemble, render, renderAlong]
  refine (Run.Takes.log _).andThen ((hvalues.tryCatch fun e => .log _).bind fun values => ?_)
  have hassembled := (Run.Takes.ofExcept (s.assemble values)).bind fun doc =>
    (Run.Takes.log (.renderFinished s.bindings.length)).andThen (.pure doc)
  rw [bind_pure] at hassembled
  exact hassembled

namespace Template

/-- One thing is done at a time in a template and in the partials that are used in it. -/
inductive OneByOne : Template → Prop where
  | mk {scene : Scene} {partials : Entries Template} (used : String → Prop)
      (here : scene.OneByOne used)
      (below : ∀ name t, used name → partials.find? name = some t → OneByOne t) :
      OneByOne (.mk scene partials)

/-- Templates are rendered one thing after another when they are compiled under ceilings of
zero or one, with serial helpers and with partials of this kind. -/
theorem oneByOne_template {e : Engine} {document : Json} (h : document.WellFormed)
    (hbindings : OneAtATime e.config.concurrency) (helements : OneAtATime e.config.mapConcurrency)
    (hhelpers : ∀ b ∈ Binding.ofTemplate document, ∀ (i : Nat) name args helper,
      b.stages[i]? = some (.call name args) → e.helpers.own.find? name = some helper →
        helper.Serial (fun _ => True) (Word.greatest - (i + 1)) args)
    (hpartials : ∀ name t, e.partials.find? name = some t → t.OneByOne)
    (hstages : ∀ b ∈ Binding.ofTemplate document, b.stages.length < Word.bound) (options : Json) :
    (e.template document options).OneByOne := by
  refine .mk (fun _ => True) ⟨⟨h, rfl⟩, hbindings, helements, hstages, hhelpers, ?_⟩ ?_
  · intro _ _ _ _ _ _
    trivial
  · intro name t _ hfind
    exact hpartials name t hfind

/-- The helpers of the catalogue do what is asked of helpers here, so long as the counts in
their arguments can be added to the number of stages. -/
theorem oneByOne_catalog {e : Engine} {document : Json} (h : document.WellFormed)
    (hcatalog : e.helpers = Catalog.registry) (hbindings : OneAtATime e.config.concurrency)
    (helements : OneAtATime e.config.mapConcurrency)
    (hpartials : ∀ name t, e.partials.find? name = some t → t.OneByOne)
    (hstages : ∀ b ∈ Binding.ofTemplate document, b.stages.length < Word.bound)
    (hcounts : ∀ b ∈ Binding.ofTemplate document, ∀ name args, .call name args ∈ b.stages →
      ∀ count, Word.read? (Catalog.firstArg args) = some count →
        b.stages.length + count < Word.bound)
    (options : Json) : (e.template document options).OneByOne := by
  refine oneByOne_template h hbindings helements ?_ hpartials hstages options
  intro b hb i name args helper hcall hfind
  rw [hcatalog] at hfind
  refine Catalog.serial_find? ?_ hfind
  intro count hcount
  have hlt := (List.getElem?_eq_some_iff.mp hcall).1
  have hsum := hcounts b hb name args (List.mem_of_getElem? hcall) count hcount
  rw [Word.greatest]
  omega

/-- Rendering a template, whoever renders it. -/
theorem takes_renderBy {t : Template} (h : t.OneByOne) (runner : Runner) (data : Json) :
    (t.renderBy runner data).Takes (t.renderInTurn data) := by
  -- The induction goes from the innermost partials outwards.
  induction h generalizing runner data with
  | @mk scene partials used here below ih =>
    have hpartials : PartialsTake used (renderers partials) (recitals partials) := by
      intro name
      rw [find?_renderers, find?_recitals]
      cases hfind : partials.find? name with
      | none => exact .inl ⟨rfl, rfl⟩
      | some t => exact .inr ⟨_, _, rfl, rfl, fun hused => ih name t hused hfind .task⟩
    exact Scene.takes_render here hpartials runner data

end Template

/-- The calls of helpers that happen while a computation is carried out in the foreground,
and after it until nobody has anything left to do. -/
def Timed.invocations {α : Type} (x : Timed α) : List Invocation :=
  x.chronicle.filterMap fun stamped => stamped.observation.invocation?

theorem Run.Takes.invocations {α : Type} {r : Run α} {c : Course α} (h : r.Takes c) :
    r.timed.invocations = c.calls := by
  have hplay := Script.play_invocations .foreground h.single
  have hcalls : r.timed.script.invocations = c.calls := congrArg Course.calls h.course
  rw [Timed.invocations, Timed.chronicle, List.filterMap_filterMap, ← hcalls, ← hplay]
  congr 1
  funext report
  cases hreport : report.2.observation? <;> simp [Report.invocation?, hreport]

namespace Template

/-- With ceilings of zero or one, in a template and in the partials that it uses, and with
helpers that do one thing at a time, a render calls the helpers that are called when one thing
is done after another, in the same order and with the same paths, arguments and inputs, and
neither before it ends nor later any other; and it gives the document or the first failure that
comes of that. -/
theorem render_in_turn {t : Template} (h : t.OneByOne) (data : Json) :
    (t.render data).timed.invocations = (t.renderInTurn data).calls
      ∧ (t.render data).result = (t.renderInTurn data).result := by
  have htakes := takes_renderBy h .foreground data
  exact ⟨htakes.invocations, congrArg Course.result htakes.course⟩

/-- A template that renders a partial for every row, with another binding behind. -/
def checkedTemplate : Template :=
  let row := Engine.template ⟨Catalog.registry, [], ⟨some 1, some 0, true⟩, some .standard⟩
    (.object [("cells", .string "\x60cells | map | runskip:2 | delay:5 | explode:full\x60")]) .null
  Engine.template ⟨Catalog.registry, [("row", row)], ⟨some 0, some 1, false⟩, none⟩
    (.object [("rows", .string "\x60rows | map | partial:row\x60"),
      ("tail", .string "\x60name | delay:5\x60")]) .null

/-- Three rows, the second of which has two cells. -/
def checkedData : Json :=
  .object [("name", .string "n"),
    ("rows", .array [.object [("cells", .array [])],
      .object [("cells", .array [.null, .bool true])], .object [("cells", .array [])]])]

theorem oneByOne_checkedTemplate : checkedTemplate.OneByOne := by
  have hrow : Binding.ofTemplate (.object [("cells",
        .string "\x60cells | map | runskip:2 | delay:5 | explode:full\x60")])
      = [⟨[.name "cells"], "cells | map | runskip:2 | delay:5 | explode:full",
          [.data ⟨["cells"]⟩, .call "map" [], .call "runskip" ["2"], .call "delay" ["5"],
            .call "explode" ["full"]]⟩] := by
    cbv
  have hrows : Binding.ofTemplate (.object [("rows", .string "\x60rows | map | partial:row\x60"),
        ("tail", .string "\x60name | delay:5\x60")])
      = [⟨[.name "rows"], "rows | map | partial:row",
            [.data ⟨["rows"]⟩, .call "map" [], .call "partial" ["row"]]⟩,
          ⟨[.name "tail"], "name | delay:5", [.data ⟨["name"]⟩, .call "delay" ["5"]]⟩] := by
    cbv
  -- The numbers in the arguments, where there are any.
  have hnone : Word.read? (Catalog.firstArg []) = none := by decide
  have htwo : Word.read? (Catalog.firstArg ["2"]) = some 2 := by decide
  have hfive : Word.read? (Catalog.firstArg ["5"]) = some 5 := by decide
  have hfull : Word.read? (Catalog.firstArg ["full"]) = none := by decide
  have hname : Word.read? (Catalog.firstArg ["row"]) = none := by decide
  refine oneByOne_catalog ?_ rfl ⟨0, rfl, by decide⟩ ⟨1, rfl, by decide⟩ ?_ ?_ ?_ _
  · exact Json.wellFormed_object_texts (List.pairwise_pair.mpr (by decide)) (by decide)
  · intro name t hfind
    simp only [Entries.find?] at hfind
    split at hfind
    next =>
      obtain rfl := Option.some.inj hfind
      refine oneByOne_catalog ?_ rfl ⟨1, rfl, by decide⟩ ⟨0, rfl, by decide⟩ ?_ ?_ ?_ _
      · exact Json.wellFormed_object_texts (List.pairwise_singleton _ _) (by decide)
      · intro name t hfind
        simp at hfind
      · rw [hrow]
        decide
      · rw [hrow]
        intro b hb name args hcall count hcount
        simp only [List.mem_singleton] at hb
        subst hb
        simp only [List.mem_cons, Stage.call.injEq, reduceCtorEq, List.not_mem_nil, or_false,
          false_or] at hcall
        rcases hcall with ⟨rfl, rfl⟩ | ⟨rfl, rfl⟩ | ⟨rfl, rfl⟩ | ⟨rfl, rfl⟩
        · simp [hnone] at hcount
        · obtain rfl : 2 = count := Option.some.inj (htwo.symm.trans hcount)
          decide
        · obtain rfl : 5 = count := Option.some.inj (hfive.symm.trans hcount)
          decide
        · simp [hfull] at hcount
    next => simp at hfind
  · rw [hrows]
    decide
  · rw [hrows]
    intro b hb name args hcall count hcount
    rcases List.mem_pair.mp hb with rfl | rfl
    · simp only [List.mem_cons, Stage.call.injEq, reduceCtorEq, List.not_mem_nil, or_false,
        false_or] at hcall
      rcases hcall with ⟨rfl, rfl⟩ | ⟨rfl, rfl⟩
      · simp [hnone] at hcount
      · simp [hname] at hcount
    · simp only [List.mem_cons, Stage.call.injEq, reduceCtorEq, List.not_mem_nil, or_false,
        false_or] at hcall
      obtain ⟨rfl, rfl⟩ := hcall
      obtain rfl : 5 = count := Option.some.inj (hfive.symm.trans hcount)
      decide

/-- The first cell that there is ends the render: neither the cell behind it is looked at nor
the row behind that, nor the name. -/
theorem render_in_turn_checkedTemplate :
    checkedTemplate.OneByOne
      ∧ (checkedTemplate.render checkedData).timed.invocations
        = [⟨[.name "rows"], "map", [], .array [.object [("cells", .array [])],
              .object [("cells", .array [.null, .bool true])], .object [("cells", .array [])]]⟩,
            ⟨[.name "rows"], "partial", ["row"], .object [("cells", .array [])]⟩,
            ⟨[.name "cells"], "map", [], .array []⟩,
            ⟨[.name "rows"], "partial", ["row"], .object [("cells",
              .array [.null, .bool true])]⟩,
            ⟨[.name "cells"], "map", [], .array [.null, .bool true]⟩,
            ⟨[.name "cells"], "runskip", ["2"], .null⟩,
            ⟨[.name "cells"], "delay", ["5"], .null⟩,
            ⟨[.name "cells"], "explode", ["full"], .null⟩]
      ∧ (checkedTemplate.render checkedData).result = .error (.panicked "cells" "full") := by
  obtain ⟨hcalls, hresult⟩ := render_in_turn oneByOne_checkedTemplate checkedData
  refine ⟨oneByOne_checkedTemplate, ?_, ?_⟩
  · rw [hcalls]
    cbv
  · rw [hresult]
    cbv

/-! ### What ceilings cannot put in order -/

/-- The ceilings of a template are zero or one, and so are those of its partials. -/
inductive Narrow : Template → Prop where
  | mk {scene : Scene} {partials : Entries Template}
      (bindings : OneAtATime scene.config.concurrency)
      (elements : OneAtATime scene.config.mapConcurrency)
      (below : ∀ name t, partials.find? name = some t → Narrow t) : Narrow (.mk scene partials)

/-- A helper that has the stages behind it run twice at the same time, and skips them. -/
def fork : Helper := fun ctx _ input =>
  let script := (ctx.runRemaining .task ctx.remaining.length input).script
  ⟨.flow (.skip input ctx.remaining.length), [.join [script, script] [] [[], []]]⟩

/-- A template of one pipeline, under ceilings of one. -/
def narrowTemplate (helpers : Registry) (expression : String) : Template :=
  Engine.template ⟨helpers, [], ⟨some 1, some 1, true⟩, none⟩
    (.object [("v", .string expression)]) .null

/-- A helper does two things at the same time. -/
def forkedTemplate : Template :=
  narrowTemplate (Catalog.registry.register "fork" fork) "\x60n | fork | delay:5 | inc\x60"

/-- A helper asks for as many stages as the greatest word says. -/
def boundlessTemplate : Template :=
  narrowTemplate Catalog.registry "\x60n | run:18446744073709551615 | probe\x60"

theorem narrow_narrowTemplate (helpers : Registry) (expression : String) :
    (narrowTemplate helpers expression).Narrow := by
  refine .mk ⟨1, rfl, Nat.le_refl 1⟩ ⟨1, rfl, Nat.le_refl 1⟩ ?_
  intro name t hfind
  simp at hfind

/-- Ceilings of one leave two things open.  Stages that a helper has run twice at the same time
are called by turns, and not one after another; and a helper that asks for more stages than can
be counted ends the render with a panic, where these stages can well be run. -/
theorem not_always_in_turn :
    (forkedTemplate.Narrow
      ∧ (forkedTemplate.render (.object [("n", .bool true)])).timed.invocations
        = [⟨[.name "v"], "fork", [], .bool true⟩, ⟨[.name "v"], "delay", ["5"], .bool true⟩,
            ⟨[.name "v"], "delay", ["5"], .bool true⟩, ⟨[.name "v"], "inc", [], .bool true⟩,
            ⟨[.name "v"], "inc", [], .bool true⟩]
      ∧ (forkedTemplate.renderInTurn (.object [("n", .bool true)])).calls
        = [⟨[.name "v"], "fork", [], .bool true⟩, ⟨[.name "v"], "delay", ["5"], .bool true⟩,
            ⟨[.name "v"], "inc", [], .bool true⟩, ⟨[.name "v"], "delay", ["5"], .bool true⟩,
            ⟨[.name "v"], "inc", [], .bool true⟩])
      ∧ boundlessTemplate.Narrow
      ∧ (boundlessTemplate.render (.object [("n", .bool true)])).result
        = .error (.panicked "v" "attempt to add with overflow")
      ∧ (boundlessTemplate.renderInTurn (.object [("n", .bool true)])).result
        = .ok (.object [("v", .bool true)]) := by
  refine ⟨⟨narrow_narrowTemplate _ _, ?_, ?_⟩, narrow_narrowTemplate _ _, ?_, ?_⟩ <;> cbv

end Template

end DocTemplate
