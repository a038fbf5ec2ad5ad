/-
The engine.

An engine holds helpers, partials, a configuration and an observer, if one has
been installed, and compiles templates.  A compiled template keeps what the
engine held at that moment; what is registered or installed on the engine later
does not reach it.
-/
import DocTemplate.Engine.File
import DocTemplate.Template.Basic

namespace DocTemplate

/-- What templates are compiled with. -/
structure Engine where
  helpers : Registry
  partials : Entries Template
  config : Config
  observer : Option Observer

namespace Engine

/-- An engine with the built-in helpers alone. -/
def initial : Engine := ⟨.initial, [], .standard, none⟩

/-- Whether an observer is installed. -/
def observed (e : Engine) : Bool := e.observer.isSome

/-- The engine with another configuration. -/
def withConfig (e : Engine) (config : Config) : Engine := { e with config }

/-- The engine with an observer, in the place of any other. -/
def install (e : Engine) (observer : Observer) : Engine := { e with observer := some observer }

/-- The engine with the standard observer. -/
def observe (e : Engine) : Engine := e.install .standard

/-- The engine with a partial registered under a name. -/
def registerPartial (e : Engine) (name : String) (t : Template) : Engine :=
  { e with partials := e.partials.put name t }

/-- The engine with a helper registered under a name. -/
def register (e : Engine) (name : String) (helper : Helper) : Engine :=
  { e with helpers := e.helpers.register name helper }

/-- The template of a document, with options. -/
def template (e : Engine) (document options : Json) : Template :=
  .mk
    { skeleton := document
      bindings := Binding.ofTemplate document
      helpers := e.helpers
      options := options
      config := e.config
      observer := e.observer }
    e.partials

/-- Compile a document, with options. -/
def compile (e : Engine) (document options : Json) : Timed Template := do
  let t := e.template document options
  Timed.log (.templateCompiled t.bindings.length e.helpers.names.length e.partials.length)
  return t

/-- Compile a document and render it at once; the data are the options as well. -/
def renderOnce (e : Engine) (document data : Json) : Run Json := do
  let t ← ExceptT.lift (e.compile document data)
  t.render data

/-- Compile the template in a file and render it at once. -/
def renderFile (e : Engine) (file : TemplateFile) (data : Json) : Run Json := do
  e.renderOnce (← file.load) data

end Engine

/-- The line written when a helper takes the place of another one registered
under the same name. -/
def Registry.replacement (r : Registry) (name : String) : Timed Unit :=
  if r.own.contains name then Timed.log (.helperReplaced name) else pure ()

end DocTemplate
