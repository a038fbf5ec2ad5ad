/-
Templates and the partials nested in them.

A template holds the partials that it may render, each with a scene of its own, and a
partial is rendered as the template under its name (`Template.find?_renderers`).  What is
asked of a template is often asked of all scenes in it; `Template.Throughout` says so, and
an induction on it goes from the innermost partials outwards.
-/
import DocTemplate.Engine.Session

namespace DocTemplate

/-- What is made of entries one by one is found under the same names. -/
theorem Entries.find?_mapped {α β : Type} {f : α → β} {g : List (String × α) → Entries β}
    (hnil : g [] = []) (hcons : ∀ key a es, g ((key, a) :: es) = (key, f a) :: g es)
    (es : Entries α) (name : String) : (g es).find? name = (es.find? name).map f := by
  induction es with
  | nil =>
    rw [hnil]
    rfl
  | cons e es ih =>
    obtain ⟨key, a⟩ := e
    rw [hcons, find?, find?]
    by_cases hkey : key = name
    · rw [if_pos hkey, if_pos hkey]
      rfl
    · rw [if_neg hkey, if_neg hkey, ih]

/-- A scene as it is compiled: its bindings are those of its skeleton. -/
structure Scene.Compiled (s : Scene) : Prop where
  wellFormed : s.skeleton.WellFormed
  bindings : s.bindings = Binding.ofTemplate s.skeleton

namespace Template

/-- Something holds of the scene of a template and of the scenes of all partials that
are nested in it. -/
inductive Throughout (P : Scene → Prop) : Template → Prop where
  | mk {scene : Scene} {partials : Entries Template} (here : P scene)
      (below : ∀ name t, partials.find? name = some t → Throughout P t) :
      Throughout P (.mk scene partials)

theorem find?_renderers (partials : Entries Template) (name : String) :
    (renderers partials).find? name
      = (partials.find? name).map fun t data => t.renderBy .task data :=
  Entries.find?_mapped rfl (fun _ _ _ => rfl) partials name

/-- What an engine compiles is compiled throughout when its partials are. -/
theorem throughout_compiled_template {e : Engine} {document : Json} (h : document.WellFormed)
    (hpartials : ∀ name t, e.partials.find? name = some t → t.Throughout Scene.Compiled)
    (options : Json) : (e.template document options).Throughout Scene.Compiled :=
  .mk ⟨h, rfl⟩ hpartials

/-- What holds of the scene of a template and throughout its partials holds throughout the
template. -/
theorem Throughout.of_scene {P : Scene → Prop} {t : Template} (here : P t.scene)
    (below : ∀ name inner, t.partials.find? name = some inner → inner.Throughout P) :
    t.Throughout P := by
  cases t
  exact .mk here below

end Template

end DocTemplate
