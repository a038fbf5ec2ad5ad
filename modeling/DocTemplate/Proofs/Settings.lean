/-
What the settings of a render cannot change.

Ceilings, giving way and the observer decide when the stages of a template are performed
and who hears of it.  Templates that differ in nothing else, neither themselves nor in the
partials that they render, give the same documents.

The proof goes along two renders side by side.  Every run of the one has a partner in the
other that gives the same value, or fails as well; which one of several failures comes out
hangs on the order in which they happen, and is left open.

* `Helper.AnswersLike` — in contexts that agree two helpers answer alike; a helper that answers
  like itself is steady;
* `Binding.toOption_runFrom_congr` — so do chains of such helpers;
* `Template.toOption_renderBy_congr` — so does a template, by induction on the partials
  nested in it;
* `Template.settings_keep_document` — the two ways of rendering a template.
-/
import DocTemplate.Engine.Basic
import DocTemplate.Proofs.Evaluation
import DocTemplate.Proofs.Nesting
import DocTemplate.Proofs.Substitution

namespace DocTemplate

/-! ### Helpers -/

/-- The flow that a helper answers with; none when it fails or panics. -/
def Outcome.flow? : Outcome → Option Flow
  | .flow answer => some answer
  | _ => none

theorem Outcome.toOption_located (name : String) (path : Path) (outcome : Outcome) :
    (outcome.located name path).toOption = outcome.flow? := by
  cases outcome <;> rfl

/-- Two contexts of a stage agree: what can be run in them gives the same, or fails in
both. -/
structure HelperContext.Agrees (ctx ctx' : HelperContext) : Prop where
  path : ctx.path = ctx'.path
  options : ctx.options = ctx'.options
  remaining : ctx.remaining = ctx'.remaining
  runs : ∀ runner runner' count input,
    (ctx.runRemaining runner count input).value.value?
      = (ctx'.runRemaining runner' count input).value.value?
  partials : ∀ name data,
    (ctx.partial? name).map (fun render => (render data).result.toOption)
      = (ctx'.partial? name).map fun render => (render data).result.toOption

namespace Helper

/-- The result of the helper depends on its input, its arguments, the path and the
options only. -/
def Determined (helper : Helper) : Prop :=
  ∀ ctx ctx' : HelperContext, ctx.path = ctx'.path → ctx.options = ctx'.options →
    ∀ args input, (helper ctx args input).value = (helper ctx' args input).value

/-- Two helpers answer alike in contexts that agree. -/
def AnswersLike (helper helper' : Helper) : Prop :=
  ∀ ctx ctx' : HelperContext, ctx.Agrees ctx' → ∀ args input,
    (helper ctx args input).value.flow? = (helper' ctx' args input).value.flow?

/-- The helper answers alike in contexts that agree. -/
def Steady (helper : Helper) : Prop := helper.AnswersLike helper

theorem Determined.steady {helper : Helper} (h : helper.Determined) : helper.Steady := by
  intro ctx ctx' hctx args input
  rw [h ctx ctx' hctx.path hctx.options]

theorem determined_ofDelayed (delay : List String → Nat)
    (f : List String → Json → Except Error Json) : (ofDelayed delay f).Determined := by
  intro ctx ctx' _ _ args input
  rfl

theorem determined_passOn : passOn.Determined := by
  intro ctx ctx' _ _ args input
  rfl

theorem flow?_ofRun (f : HelperContext → List String → Json → Run Flow) (ctx : HelperContext)
    (args : List String) (input : Json) :
    (ofRun f ctx args input).value.flow? = (f ctx args input).result.toOption := by
  rw [value_ofRun]
  cases (f ctx args input).result <;> rfl

theorem steady_map : map.Steady := by
  intro ctx ctx' hctx args input
  rw [← Outcome.toOption_located "map" [], ← Outcome.toOption_located "map" [], toOption_map,
    toOption_map, hctx.remaining]
  congr 2
  funext value
  exact hctx.runs _ _ _ _

theorem steady_renderPartial : renderPartial.Steady := by
  intro ctx ctx' hctx args input
  rw [renderPartial, flow?_ofRun, flow?_ofRun]
  by_cases hnull : input.isNull
  · simp only [hnull, if_true]
  · cases args with
    | nil => simp only [hnull]
    | cons name args =>
      have hpartial := hctx.partials name input
      simp only [hnull, Bool.false_eq_true, if_false]
      cases hleft : ctx.partial? name with
      | none =>
        cases hright : ctx'.partial? name with
        | none => rfl
        | some render => simp [hleft, hright] at hpartial
      | some render =>
        cases hright : ctx'.partial? name with
        | none => simp [hleft, hright] at hpartial
        | some render' =>
          have hsame : (render input).result.toOption = (render' input).result.toOption := by
            simpa [hleft, hright] using hpartial
          simp only [Run.result_bind, Run.result_pure, toOption_bind, hsame]

theorem steady_builtIn {name : String} {helper : Helper}
    (h : builtIn.find? name = some helper) : helper.Steady := by
  rcases builtIn_cases h with rfl | rfl | ⟨_, rfl⟩
  · exact steady_map
  · exact determined_passOn.steady
  · exact steady_renderPartial

end Helper

/-- The helpers that are registered in front of the built-in ones are determined by what
they are given, or are built-in ones under another name. -/
def Registry.Determined (r : Registry) : Prop :=
  ∀ name helper, r.own.find? name = some helper →
    helper.Determined ∨ ∃ other, Helper.builtIn.find? other = some helper

theorem Registry.Determined.steady {r : Registry} (h : r.Determined) {name : String}
    {helper : Helper} (hfind : r.find? name = some helper) : helper.Steady := by
  rcases Option.or_eq_some_iff.mp hfind with hown | ⟨_, hbuiltIn⟩
  · rcases h name helper hown with hdetermined | ⟨other, hother⟩
    · exact hdetermined.steady
    · exact Helper.steady_builtIn hother
  · exact Helper.steady_builtIn hbuiltIn

theorem Registry.Determined.answersLike {r : Registry} (h : r.Determined) (name : String) :
    Option.Rel Helper.AnswersLike (r.find? name) (r.find? name) := by
  cases hfind : r.find? name with
  | none => exact .none
  | some helper => exact .some (h.steady hfind)

/-! ### Chains -/

/-- What chains find around themselves agrees, but for the settings. -/
structure Environment.Agrees (env env' : Environment) : Prop where
  helpers : ∀ name, Option.Rel Helper.AnswersLike (env.helper? name) (env'.helper? name)
  options : env.options = env'.options
  partials : ∀ name data,
    (env.partial? name).map (fun render => (render data).result.toOption)
      = (env'.partial? name).map fun render => (render data).result.toOption

namespace Binding

variable {env env' : Environment}

/-- A stage performed in two contexts that agree. -/
theorem toOption_perform_congr (henv : env.Agrees env') {ctx ctx' : HelperContext}
    (hctx : ctx.Agrees ctx') (stage : Stage) (input : Json) :
    (stage.perform env ctx input).result.toOption
      = (stage.perform env' ctx' input).result.toOption := by
  cases stage with
  | literal value => rfl
  | data path => rfl
  | call name args =>
    rw [result_perform_call, result_perform_call]
    have hhelpers := henv.helpers name
    generalize env.helper? name = left, env'.helper? name = right at hhelpers
    cases hhelpers with
    | none => rfl
    | some hlike =>
      simp only [Outcome.toOption_located]
      exact hlike ctx ctx' hctx args input

theorem toOption_runFrom_congr (henv : env.Agrees env') (b : Binding) (stop cursor : Nat)
    (input : Json) :
    (b.runFrom env stop cursor input).result.toOption
      = (b.runFrom env' stop cursor input).result.toOption := by
  -- The stages that a helper runs itself lie behind it, nearer to the stop.
  induction hn : stop - cursor using Nat.strongRecOn generalizing env env' stop cursor input with
  | ind n ih =>
    by_cases hcursor : stop ≤ cursor
    · rw [runFrom_of_le hcursor, runFrom_of_le hcursor]
    · have hlater (next : Nat) (hnext : cursor < next) (value : Json) :
          (b.runFrom env stop next value).result.toOption
            = (b.runFrom env' stop next value).result.toOption :=
        ih (stop - next) (by omega) henv stop next value rfl
      cases hs : b.stages[cursor]? with
      | none =>
        have hlength := List.getElem?_eq_none_iff.mp hs
        rw [runFrom_past_end hlength, runFrom_past_end hlength]
      | some stage =>
        rw [runFrom_eq (by omega) hs, runFrom_eq (by omega) hs]
        simp only [Run.result_bind, toOption_bind]
        have hctx : (b.contextAt env stop cursor (b.runRemaining env stop cursor)).Agrees
            (b.contextAt env' stop cursor (b.runRemaining env' stop cursor)) := by
          refine ⟨rfl, henv.options, rfl, ?_, henv.partials⟩
          intro runner runner' count value
          have hnearer : clippedStop stop (behind stop cursor) count - behind stop cursor < n := by
            simp only [clippedStop, behind]
            omega
          have hrunner : ({ env with runner } : Environment).Agrees { env' with runner := runner' } :=
            ⟨henv.helpers, henv.options, henv.partials⟩
          show (b.runRemaining env stop cursor runner count value).value.value?
            = (b.runRemaining env' stop cursor runner' count value).value.value?
          unfold runRemaining
          split
          · rw [Ending.value?_ofRun, Ending.value?_ofRun]
            exact ih _ hnearer hrunner _ _ value rfl
          · rfl
        rw [toOption_perform_congr henv hctx]
        congr 1
        funext flow
        rw [result_continueFrom, result_continueFrom]
        cases flow with
        | next value => exact hlater (cursor + 1) (by omega) value
        | skip value count => exact hlater (cursor + 1 + count) (by omega) value
        | exit value => rfl

theorem toOption_evaluate_congr (henv : env.Agrees env') (b : Binding) (data : Json) :
    (b.evaluate env data).result.toOption = (b.evaluate env' data).result.toOption := by
  have hcontinue (value : Json) :
      (evaluate.continueWith env b value).result.toOption
        = (evaluate.continueWith env' b value).result.toOption := by
    simp only [evaluate.continueWith, Run.result_bind, result_giveWay]
    exact toOption_runFrom_congr henv b _ _ value
  rw [evaluate, evaluate]
  cases b.stages.head? with
  | none => rfl
  | some stage =>
    cases stage with
    | literal value => exact hcontinue value
    | data path => exact hcontinue (path.resolve data)
    | call name args => rfl

end Binding

/-! ### Scenes -/

/-- Two scenes are alike when they differ in their settings only. -/
structure Scene.Alike (s s' : Scene) : Prop where
  skeleton : s.skeleton = s'.skeleton
  bindings : s.bindings = s'.bindings
  helpers : s.helpers = s'.helpers
  options : s.options = s'.options

namespace Scene

variable {s s' : Scene} {partials partials' : Entries Renderer} {runner runner' : Runner}

/-- The bindings of two scenes give the same values, and the same ones fail. -/
theorem toOption_outcomes_congr (hbindings : s.bindings = s'.bindings)
    (henv : (s.environment partials).Agrees (s'.environment partials')) (data : Json) :
    (s.batch runner partials data).outcomes.map Except.toOption
      = (s'.batch runner' partials' data).outcomes.map Except.toOption := by
  rw [outcomes_batch, outcomes_batch, ← hbindings, List.map_map, List.map_map]
  refine List.map_congr_left ?_
  intro b _
  exact Binding.toOption_evaluate_congr henv b data

theorem toOption_renderAlong_congr (hskeleton : s.skeleton = s'.skeleton)
    (hbindings : s.bindings = s'.bindings)
    (henv : (s.environment partials).Agrees (s'.environment partials')) {order order' : List Nat}
    (data : Json) (ho : (s.batch runner partials data).Completes order)
    (ho' : (s'.batch runner' partials' data).Completes order') :
    (s.renderAlong runner partials order data).result.toOption
      = (s'.renderAlong runner' partials' order' data).result.toOption := by
  have hvalues : (s.batch runner partials data).outcomes.mapM Except.toOption
      = (s'.batch runner' partials' data).outcomes.mapM Except.toOption := by
    have hmap (outcomes : List (Except Error Json)) :
        outcomes.mapM Except.toOption = (outcomes.map Except.toOption).mapM id := by
      rw [List.mapM_map]
      rfl
    rw [hmap, hmap, toOption_outcomes_congr hbindings henv]
  have hassemble : s.assemble = s'.assemble := by
    funext values
    rw [assemble, assemble, hskeleton, hbindings]
  rw [result_renderAlong, result_renderAlong, toOption_bind, toOption_bind,
    Batch.toOption_collectAlong ho, Batch.toOption_collectAlong ho', hvalues, hassemble]

end Scene

/-! ### Templates -/

namespace Template

/-- Two templates are alike when they differ in their settings only, and so do the
partials that they may render. -/
inductive Alike : Template → Template → Prop where
  | mk {s s' : Scene} {partials partials' : Entries Template} (scene : s.Alike s')
      (known : ∀ name, (partials.find? name).isSome = (partials'.find? name).isSome)
      (below : ∀ name t t', partials.find? name = some t → partials'.find? name = some t' →
        Alike t t') :
      Alike (.mk s partials) (.mk s' partials')

/-- What chains find around themselves agrees when the helpers answer alike and the partials
render alike. -/
theorem agrees_environment {s s' : Scene} {partials : Entries Template}
    {partials' : Entries Renderer}
    (helpers : ∀ name,
      Option.Rel Helper.AnswersLike (s.helpers.find? name) (s'.helpers.find? name))
    (options : s.options = s'.options)
    (known : ∀ name, (partials.find? name).isSome = (partials'.find? name).isSome)
    (render : ∀ name t render, partials.find? name = some t → partials'.find? name = some render →
      ∀ data, (t.renderBy .task data).result.toOption = (render data).result.toOption) :
    (s.environment (renderers partials)).Agrees (s'.environment partials') := by
  refine ⟨helpers, options, ?_⟩
  intro name data
  show ((renderers partials).find? name).map _ = (partials'.find? name).map _
  rw [find?_renderers]
  have hknown := known name
  cases hleft : partials.find? name with
  | none =>
    cases hright : partials'.find? name with
    | none => rfl
    | some render => simp [hleft, hright] at hknown
  | some t =>
    cases hright : partials'.find? name with
    | none => simp [hleft, hright] at hknown
    | some inner =>
      simp only [Option.map_some]
      rw [render name t inner hleft hright data]

/-- So it is with templates that are alike, when their partials render alike. -/
theorem agrees_environment_alike {s s' : Scene} {partials partials' : Entries Template}
    (h : s.Alike s') (hs : s.helpers.Determined)
    (known : ∀ name, (partials.find? name).isSome = (partials'.find? name).isSome)
    (render : ∀ name t t', partials.find? name = some t → partials'.find? name = some t' →
      ∀ data, (t.renderBy .task data).result.toOption = (t'.renderBy .task data).result.toOption) :
    (s.environment (renderers partials)).Agrees (s'.environment (renderers partials')) := by
  refine agrees_environment ?_ h.options ?_ ?_
  · intro name
    rw [← h.helpers]
    exact hs.answersLike name
  · intro name
    rw [find?_renderers, Option.isSome_map]
    exact known name
  · intro name t inner hleft hright data
    rw [find?_renderers] at hright
    obtain ⟨t', htheirs, rfl⟩ := Option.map_eq_some_iff.mp hright
    exact render name t t' hleft htheirs data

/-- Templates that are alike render alike, whoever renders them. -/
theorem toOption_renderBy_congr {t t' : Template} (h : t.Alike t')
    (ht : t.Throughout (·.helpers.Determined)) (runner runner' : Runner) (data : Json) :
    (t.renderBy runner data).result.toOption = (t'.renderBy runner' data).result.toOption := by
  -- The induction is on what is asked of the helpers, from the innermost partials outwards.
  induction ht generalizing t' runner runner' data with
  | mk here below ih =>
    cases h with
    | mk scene known alike =>
      have henv := agrees_environment_alike scene here known fun name t t' hleft hright data =>
        ih name t hleft (alike name t t' hleft hright) .task .task data
      exact Scene.toOption_renderAlong_congr scene.skeleton scene.bindings henv data
        (Batch.completes_order _) (Batch.completes_order _)

theorem Alike.agrees {t t' : Template} (h : t.Alike t')
    (ht : t.Throughout (·.helpers.Determined)) :
    t.scene.Alike t'.scene ∧ t.environment.Agrees t'.environment := by
  cases h with
  | mk scene known alike =>
    cases ht with
    | mk here below =>
      refine ⟨scene, agrees_environment_alike scene here known ?_⟩
      intro name t t' hleft hright data
      exact toOption_renderBy_congr (alike name t t' hleft hright) (below name t hleft) _ _ data

/-- Templates that differ in ceilings, in giving way and in having an observer give the
same document, in any orders in which their bindings may complete, or both give none.
With all bindings waited for, the same ones fail and the others give the same values. -/
theorem settings_keep_document {t t' : Template} (h : t.Alike t')
    (ht : t.Throughout (·.helpers.Determined)) (data : Json) :
    (∀ doc, (t.render data).result = .ok doc ↔ (t'.render data).result = .ok doc)
      ∧ (∀ order order', (t.batch data).Completes order → (t'.batch data).Completes order' →
          ∀ doc, (t.renderAlong data order).result = .ok doc
            ↔ (t'.renderAlong data order').result = .ok doc)
      ∧ (t.settle data).value.results = (t'.settle data).value.results
      ∧ (t.settle data).value.errors.map Option.isSome
          = (t'.settle data).value.errors.map Option.isSome := by
  obtain ⟨hscene, henv⟩ := h.agrees ht
  have hok {x y : Except Error Json} (hxy : x.toOption = y.toOption) (doc : Json) :
      x = .ok doc ↔ y = .ok doc := by
    rw [← toOption_eq_some_iff, ← toOption_eq_some_iff, hxy]
  have houtcomes : (t.batch data).outcomes.map Except.toOption
      = (t'.batch data).outcomes.map Except.toOption :=
    Scene.toOption_outcomes_congr hscene.bindings henv data
  have hsettle (t : Template) : (t.settle data).value
      = ⟨(t.batch data).outcomes.map (Join.fatal? .abort),
          (t.batch data).outcomes.map Except.toOption⟩ := by
    cases t
    exact Scene.value_settle _ _ _
  refine ⟨?_, ?_, ?_, ?_⟩
  · exact hok (toOption_renderBy_congr h ht _ _ data)
  · intro order order' ho ho'
    exact hok (Scene.toOption_renderAlong_congr hscene.skeleton hscene.bindings henv data ho ho')
  · rw [hsettle, hsettle]
    exact houtcomes
  · -- A binding fails where it has no value.
    have hfails (outcomes : List (Except Error Json)) :
        (outcomes.map (Join.fatal? .abort)).map Option.isSome
          = (outcomes.map Except.toOption).map Option.isNone := by
      rw [List.map_map, List.map_map]
      refine List.map_congr_left ?_
      intro outcome _
      cases outcome <;> rfl
    rw [hsettle, hsettle, hfails, hfails, houtcomes]

/-- The built-in helpers and one that takes some time. -/
def slowRegistry : Registry :=
  Registry.initial.register "slow" (.ofDelayed (fun _ => 5) fun _ input => .ok (.array [input]))

theorem determined_slowRegistry : slowRegistry.Determined := by
  intro name helper hfind
  simp only [slowRegistry, Registry.register, Registry.initial, Entries.put, Entries.find?] at hfind
  split at hfind
  · obtain rfl := Option.some.inj hfind
    exact .inl (Helper.determined_ofDelayed _ _)
  · simp at hfind

/-- A template that renders a partial for every row, each under its own settings. -/
def rowsTemplate (config rowConfig : Config) (observer : Option Observer) : Template :=
  let row := Engine.template ⟨slowRegistry, [], rowConfig, observer⟩
    (.object [("cells", .string "\x60cells | map | slow\x60")]) .null
  Engine.template ⟨slowRegistry, [("row", row)], config, observer⟩
    (.object [("name", .string "\x60name\x60"),
      ("rows", .string "\x60rows | map | partial:row\x60")]) .null

theorem alike_rowsTemplate (config rowConfig config' rowConfig' : Config)
    (observer observer' : Option Observer) :
    (rowsTemplate config rowConfig observer).Alike
      (rowsTemplate config' rowConfig' observer') := by
  constructor
  · exact ⟨rfl, rfl, rfl, rfl⟩
  · intro name
    simp only [Entries.find?]
    split <;> rfl
  · intro name t t' hleft hright
    simp only [Entries.find?] at hleft hright
    split at hleft
    next hname =>
      rw [if_pos hname] at hright
      obtain rfl := Option.some.inj hleft
      obtain rfl := Option.some.inj hright
      exact .mk ⟨rfl, rfl, rfl, rfl⟩ (fun _ => rfl) (fun _ _ _ h _ => by simp at h)
    next => simp at hleft

theorem throughout_rowsTemplate (config rowConfig : Config) (observer : Option Observer) :
    (rowsTemplate config rowConfig observer).Throughout (·.helpers.Determined) := by
  refine .mk determined_slowRegistry ?_
  intro name t hfind
  simp only [Entries.find?] at hfind
  split at hfind
  · obtain rfl := Option.some.inj hfind
    exact .mk determined_slowRegistry (fun _ _ h => by simp at h)
  · simp at hfind

/-- One row of two cells. -/
def rowsData : Json :=
  .object [("name", .string "n"),
    ("rows", .array [.object [("cells", .array [.null, .bool true])]])]

theorem settings_keep_rows :
    (rowsTemplate .standard .standard none).Alike
        (rowsTemplate ⟨some 0, some 1, false⟩ ⟨some 1, none, true⟩ (some .standard))
      ∧ (rowsTemplate .standard .standard none).Throughout (·.helpers.Determined)
      ∧ ((rowsTemplate ⟨some 0, some 1, false⟩ ⟨some 1, none, true⟩ (some .standard)).render rowsData).result
        = .ok (.object [("name", .string "n"),
            ("rows", .array [.object [("cells", .array [.array [.null], .array [.bool true]])]])]) := by
  have halike := alike_rowsTemplate .standard .standard ⟨some 0, some 1, false⟩
    ⟨some 1, none, true⟩ none (some .standard)
  have hthroughout := throughout_rowsTemplate .standard .standard none
  exact ⟨halike, hthroughout,
    ((settings_keep_document halike hthroughout rowsData).1 _).mp (by cbv)⟩

end Template

end DocTemplate
