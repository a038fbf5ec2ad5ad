/-
Sessions: an engine with named templates, and what can be done to them.

An operation changes the engine or one of the templates.  Operations on a
template that is not there change nothing.
-/
import DocTemplate.Engine.Basic

namespace DocTemplate

/-- An engine with named templates. -/
structure Session where
  engine : Engine
  templates : Entries Template

/-- What can be done in a session. -/
inductive Operation where
  /-- Give the engine another configuration. -/
  | configure (config : Config)
  /-- Install an observer, in the place of any other. -/
  | install (observer : Observer)
  /-- Register a helper on the engine. -/
  | register (name : String) (helper : Helper)
  /-- Register a helper on a template. -/
  | registerOn (template name : String) (helper : Helper)
  /-- Compile a document, with options, under a name. -/
  | compile (name : String) (document options : Json)
  /-- Give a template a second name; from then on the two go their own ways. -/
  | clone (template name : String)
  /-- Register a template as a partial. -/
  | registerPartial (template name : String)
  /-- Give a template another configuration. -/
  | configureTemplate (template : String) (config : Config)

/-- Install the standard observer. -/
def Operation.observe : Operation := .install .standard

namespace Session

/-- A session with the built-in helpers alone. -/
def initial : Session := ⟨.initial, []⟩

/-- The session with a changed engine. -/
def withEngine (s : Session) (f : Engine → Engine) : Session := { s with engine := f s.engine }

/-- The session with a template under a name. -/
def put (s : Session) (name : String) (t : Template) : Session :=
  { s with templates := s.templates.put name t }

/-- The session with a changed template, if it is there. -/
def change (s : Session) (name : String) (f : Template → Template) : Session :=
  match s.templates.find? name with
  | some t => s.put name (f t)
  | none => s

/-- Perform an operation. -/
def perform (s : Session) : Operation → Timed Session
  | .configure config => return s.withEngine (·.withConfig config)
  | .install observer => return s.withEngine (·.install observer)
  | .register name helper => do
    s.engine.helpers.replacement name
    return s.withEngine (·.register name helper)
  | .registerOn template name helper =>
    match s.templates.find? template with
    | some t => do
      t.helpers.replacement name
      return s.put template (t.register name helper)
    | none => return s
  | .compile name document options => do
    let t ← s.engine.compile document options
    return s.put name t
  | .clone template name =>
    match s.templates.find? template with
    | some t => return s.put name t
    | none => return s
  | .registerPartial template name =>
    match s.templates.find? template with
    | some t => return s.withEngine (·.registerPartial name t)
    | none => return s
  | .configureTemplate template config => return s.change template (·.withConfig config)

/-- Perform operations one after the other. -/
def performAll (s : Session) (ops : List Operation) : Timed Session := ops.foldlM perform s

end Session

end DocTemplate
