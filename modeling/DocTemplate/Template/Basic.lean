/-
Templates.

A template is a scene together with the partials it may render: templates
themselves, which were there before it.  A template therefore contains all
that it can ever render, and rendering goes down this nesting.

Templates are values; what is registered on a copy stays on the copy.
-/
import DocTemplate.Template.Scene

namespace DocTemplate

/-- A compiled template. -/
inductive Template where
  | mk (scene : Scene) (partials : List (String × Template))

namespace Template

/-- What a template holds besides its partials. -/
def scene : Template → Scene
  | mk s _ => s

/-- The partials that a template may render, by name. -/
def partials : Template → Entries Template
  | mk _ ps => ps

/-- The same template with another scene. -/
def withScene (t : Template) (f : Scene → Scene) : Template := mk (f t.scene) t.partials

mutual

/-- Let somebody render a template on data. -/
def renderBy (runner : Runner) : Template → Json → Run Json
  | mk scene partials, data => scene.render runner (renderers partials) data

/-- What templates with names render as partials, for the task of a chain. -/
def renderers : List (String × Template) → Entries Renderer
  | [] => []
  | (name, t) :: ts => (name, fun data => renderBy .task t data) :: renderers ts

end

/-- Render a template on data, in the foreground. -/
def render (t : Template) (data : Json) : Run Json := t.renderBy .foreground data

/-- The outcome of every binding of a template on data. -/
def settle : Template → Json → Timed (Settled Json)
  | mk scene partials, data => scene.settle (renderers partials) data

/-- The document the results are written into. -/
def skeleton (t : Template) : Json := t.scene.skeleton

/-- The bindings in the order of the document. -/
def bindings (t : Template) : List Binding := t.scene.bindings

/-- The options given when the template was compiled. -/
def options (t : Template) : Json := t.scene.options

/-- The configuration of renders. -/
def config (t : Template) : Config := t.scene.config

/-- The observer of renders, if there is one. -/
def observer (t : Template) : Option Observer := t.scene.observer

/-- The helpers of renders. -/
def helpers (t : Template) : Registry := t.scene.helpers

/-- The template with another configuration. -/
def withConfig (t : Template) (config : Config) : Template :=
  t.withScene fun s => { s with config }

/-- The template with a helper registered on it. -/
def register (t : Template) (name : String) (helper : Helper) : Template :=
  t.withScene fun s => { s with helpers := s.helpers.register name helper }

end Template

end DocTemplate
