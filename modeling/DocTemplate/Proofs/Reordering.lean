/-
Batches inside batches.

A render is a batch of bindings, a `map` inside a binding is a batch of elements, and a partial
that is rendered for an element is a batch again.  The scheduler completes each of them in one
order.  Here every one of them completes in an order of its own, and the document is the same.

* `Helper.MapsInSomeOrder` — a helper that does what `map` does, in some order;
* `Helper.MapsInSomeOrder.answersLike_map` — it answers like `map`;
* `Template.RendersInSomeOrder` — somebody who renders a template and lets all batches complete
  in orders of their own, also those in the partials;
* `Template.RendersInSomeOrder.result_eq_ok_iff` — such a render gives the same document, by
  induction on the partials nested in the template;
* `Template.RendersInSomeOrder.ok_iff_substitute` — and that is a substitution.
-/
import DocTemplate.Proofs.Settings

namespace DocTemplate

/-! ### Maps -/

namespace Helper

/-- Who collects the results of a batch in the order in which its tasks complete. -/
def Collects (collect : Batch Json → Run (List Json)) : Prop :=
  ∀ b : Batch Json, ∃ order, b.Completes order ∧ collect b = b.collectAlong order

theorem collects_collect : Collects Batch.collect := fun b => ⟨b.order, b.completes_order, rfl⟩

/-- The collection of the results for the elements of a collection, when somebody collects
them. -/
def mapElementsBy (collect : Batch Json → Run (List Json)) (ctx : HelperContext) (count : Nat) :
    Json → Run Json
  | .array items => return .array (← collect (elements ctx count items))
  | .object members => do
    let values ← collect (elements ctx count (members.map Prod.snd))
    return .object ((Entries.keys members).zip values)
  | other => throw (.invalid ("Incompatible type for \x60map\x60: " ++ other.kind))

/-- The helper `map`, when somebody collects the results of the elements. -/
def mapBy (collect : Batch Json → Run (List Json)) : Helper := ofRun fun ctx _ input => do
  let count := (boundary? ctx.remaining).getD ctx.remaining.length
  let aggregate ← mapElementsBy collect ctx count input
  Run.log (.elementsJoined ctx.path count (boundary? ctx.remaining).isSome)
  return mapAnswer ctx.remaining aggregate

theorem mapBy_collect : mapBy Batch.collect = map := by
  rw [map_eq_ofRun]
  rfl

/-- The helper does what `map` does; in what order the elements complete may be another one
every time. -/
def MapsInSomeOrder (helper : Helper) : Prop :=
  ∀ ctx args input, ∃ collect, Collects collect ∧ helper ctx args input = mapBy collect ctx args input

theorem mapsInSomeOrder_map : map.MapsInSomeOrder :=
  fun _ _ _ => ⟨Batch.collect, collects_collect, by rw [mapBy_collect]⟩

/-- What becomes of the elements does not hang on who collects their results. -/
theorem Collects.toOption_mapElementsBy {collect : Batch Json → Run (List Json)}
    (h : Collects collect) (ctx : HelperContext) (count : Nat) (input : Json) :
    (mapElementsBy collect ctx count input).result.toOption
      = (mapElements ctx count input).result.toOption := by
  have helements (values : List Json) : (collect (elements ctx count values)).result.toOption
      = (runEach ctx count values).result.toOption := by
    obtain ⟨order, ho, hcollect⟩ := h (elements ctx count values)
    rw [hcollect, toOption_collectAlong_elements ctx count values ho, toOption_runEach]
  cases input with
  | array items =>
    simp only [mapElementsBy, mapElements, Run.result_bind, Run.result_pure, toOption_bind,
      helements]
  | object members =>
    simp only [mapElementsBy, mapElements, Run.result_bind, Run.result_pure, toOption_bind,
      helements]
  | null | bool | number | string => rfl

theorem Collects.flow?_mapBy {collect : Batch Json → Run (List Json)} (h : Collects collect)
    (ctx : HelperContext) (args : List String) (input : Json) :
    (mapBy collect ctx args input).value.flow? = (map ctx args input).value.flow? := by
  rw [map_eq_ofRun, mapBy, flow?_ofRun, flow?_ofRun]
  simp only [mapRun, Run.result_bind, Run.result_log, Run.result_pure, toOption_bind,
    h.toOption_mapElementsBy]

theorem MapsInSomeOrder.answersLike_map {helper : Helper} (h : helper.MapsInSomeOrder) :
    map.AnswersLike helper := by
  intro ctx ctx' hctx args input
  obtain ⟨collect, hcollect, hanswer⟩ := h ctx' args input
  rw [hanswer, hcollect.flow?_mapBy]
  exact steady_map ctx ctx' hctx args input

end Helper

/-! ### Renders -/

/-- The same helpers, but for `map`, which completes its elements in some order under whatever
name it is known. -/
def Registry.Reorders (r r' : Registry) : Prop :=
  ∀ name, r'.find? name = r.find? name
    ∨ r.find? name = some Helper.map
      ∧ ∃ helper, r'.find? name = some helper ∧ helper.MapsInSomeOrder

theorem Registry.Reorders.answersLike {r r' : Registry} (h : r.Reorders r') (hr : r.Determined)
    (name : String) : Option.Rel Helper.AnswersLike (r.find? name) (r'.find? name) := by
  rcases h name with hsame | ⟨hmap, helper, hfind, hmaps⟩
  · rw [hsame]
    exact hr.answersLike name
  · rw [hmap, hfind]
    exact .some hmaps.answersLike_map

/-- The same scene, but for its settings and the order in which its maps complete. -/
structure Scene.Reorders (s s' : Scene) : Prop where
  skeleton : s.skeleton = s'.skeleton
  bindings : s.bindings = s'.bindings
  options : s.options = s'.options
  helpers : s.helpers.Reorders s'.helpers

theorem Scene.Reorders.refl (s : Scene) : s.Reorders s := ⟨rfl, rfl, rfl, fun _ => .inl rfl⟩

namespace Template

/-- Somebody renders a template.  The bindings complete in some order, the elements of its
collections as well, and so it is with the partials that it renders. -/
inductive RendersInSomeOrder : Template → Renderer → Prop where
  | mk {s s' : Scene} {partials : Entries Template} {partials' : Entries Renderer}
      {render : Renderer} (scene : s.Reorders s')
      (known : ∀ name, (partials.find? name).isSome = (partials'.find? name).isSome)
      (below : ∀ name t inner, partials.find? name = some t → partials'.find? name = some inner →
        RendersInSomeOrder t inner)
      (bindings : ∀ data, ∃ runner order, (s'.batch runner partials' data).Completes order
          ∧ render data = s'.renderAlong runner partials' order data) :
      RendersInSomeOrder (.mk s partials) render

mutual

/-- The scheduler is one of them. -/
theorem rendersInSomeOrder_renderBy (runner : Runner) :
    ∀ t : Template, t.RendersInSomeOrder (t.renderBy runner)
  | .mk s partials => by
    have hknown (name : String) : (Entries.find? partials name).isSome
        = ((renderers partials).find? name).isSome := by
      rw [find?_renderers, Option.isSome_map]
    refine .mk (.refl s) hknown ?_ ?_
    · intro name t inner ht hinner
      rw [find?_renderers, ht] at hinner
      obtain rfl := Option.some.inj hinner
      exact rendersInSomeOrder_of_find? partials name t ht
    · intro data
      exact ⟨runner, _, Batch.completes_order _, rfl⟩

theorem rendersInSomeOrder_of_find? :
    ∀ (partials : List (String × Template)) (name : String) (t : Template),
      Entries.find? partials name = some t → t.RendersInSomeOrder (t.renderBy .task)
  | [], _, _, h => by cases h
  | (key, inner) :: partials, name, t, h => by
    rw [Entries.find?] at h
    split at h
    · obtain rfl := Option.some.inj h
      exact rendersInSomeOrder_renderBy .task inner
    · exact rendersInSomeOrder_of_find? partials name t h

end

/-- Whoever renders a template, in whatever orders, has the same result, or fails as well. -/
theorem RendersInSomeOrder.toOption_eq {t : Template} {render : Renderer}
    (h : t.RendersInSomeOrder render) (ht : t.Throughout (·.helpers.Determined)) (runner : Runner)
    (data : Json) :
    (render data).result.toOption = (t.renderBy runner data).result.toOption := by
  -- The induction goes from the innermost partials outwards.
  induction h generalizing runner data with
  | @mk s s' partials partials' render scene known below bindings ih =>
    cases ht with
    | mk here beneath =>
      obtain ⟨runner', order, ho, hrender⟩ := bindings data
      have hpartials : ∀ name t inner, partials.find? name = some t →
          partials'.find? name = some inner →
            ∀ data, (t.renderBy .task data).result.toOption = (inner data).result.toOption := by
        intro name t inner hleft hright data
        exact (ih name t inner hleft hright (beneath name t hleft) .task data).symm
      have henv : (s.environment (renderers partials)).Agrees (s'.environment partials') :=
        agrees_environment (scene.helpers.answersLike here) scene.options known hpartials
      rw [hrender]
      exact (Scene.toOption_renderAlong_congr scene.skeleton scene.bindings henv data
        (Batch.completes_order _) ho).symm

/-- In whatever orders the batches complete, the document is the one of the scheduler. -/
theorem RendersInSomeOrder.result_eq_ok_iff {t : Template} {render : Renderer}
    (h : t.RendersInSomeOrder render) (ht : t.Throughout (·.helpers.Determined)) (data doc : Json) :
    (render data).result = .ok doc ↔ (t.render data).result = .ok doc := by
  rw [← toOption_eq_some_iff, ← toOption_eq_some_iff, h.toOption_eq ht .foreground]
  rfl

/-- So it is the substitution of what the chains of the leaves give, or there is none. -/
theorem RendersInSomeOrder.ok_iff_substitute {e : Engine} {document options : Json}
    {render : Renderer} (h : (e.template document options).RendersInSomeOrder render)
    (ht : (e.template document options).Throughout (·.helpers.Determined))
    (hdocument : document.WellFormed) (data doc : Json) :
    (render data).result = .ok doc ↔ ∃ value : Binding → Json,
      (∀ b, IsLeaf document b → (e.template document options).chain data b = .ok (value b))
        ∧ doc = document.substitute value := by
  rw [h.result_eq_ok_iff ht, render_eq_renderAlong]
  exact (renderAlong_substitutes hdocument rfl rfl (Batch.completes_order _)).ok_iff doc

end Template

end DocTemplate
