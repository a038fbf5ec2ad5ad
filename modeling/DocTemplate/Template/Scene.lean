/-
Rendering the bindings of a template.

A scene is what a compiled template holds besides its partials.  Its bindings
run together as a batch named `render`; when all have succeeded, their results
are written over a copy of the skeleton, each at the path of its binding.
`Scene.settle` waits for every binding instead and reports each by its index.
-/
import DocTemplate.Batch.Basic
import DocTemplate.Helper.Registry
import DocTemplate.Json.Update
import DocTemplate.Run.Chain

namespace DocTemplate

/-- A compiled template without its partials. -/
structure Scene where
  /-- The document the results are written into. -/
  skeleton : Json
  bindings : List Binding
  helpers : Registry
  options : Json
  config : Config
  observer : Option Observer

/-- What a partial renders for data. -/
abbrev Renderer := Json → Run Json

/-- Write values into a document one after the other. -/
def writeAll : Json → List (Path × Json) → Except Error Json
  | doc, [] => .ok doc
  | doc, (path, value) :: writes =>
    match doc.write path value with
    | .ok doc => writeAll doc writes
    | .error fault => .error (.ofWriteFault path fault)

namespace Scene

/-- Whether an observer listens. -/
def observed (s : Scene) : Bool := s.observer.isSome

/-- What the chains of a scene find around themselves; each is run by a task. -/
def environment (s : Scene) (partials : Entries Renderer) : Environment where
  runner := .task
  helper? := s.helpers.find?
  options := s.options
  config := s.config
  observed := s.observed
  partial? := partials.find?

/-- The bindings as tasks on the data of a render. -/
def batch (s : Scene) (runner : Runner) (partials : Entries Renderer) (data : Json) :
    Batch Json where
  runner := runner
  label := "render"
  ceiling := s.config.concurrency
  observed := s.observed
  report := some
  tasks := s.bindings.map fun b => Ending.ofRun (b.evaluate (s.environment partials) data)

/-- The skeleton with the results of the bindings in their places. -/
def assemble (s : Scene) (values : List Json) : Except Error Json :=
  writeAll s.skeleton ((s.bindings.map Binding.path).zip values)

/-- Render a document, the bindings completing in an order. -/
def renderAlong (s : Scene) (runner : Runner) (partials : Entries Renderer) (order : List Nat)
    (data : Json) : Run Json := do
  Run.log (.renderStarted s.bindings.length)
  -- The failure is reported and goes on to the caller.
  let values ← tryCatch ((s.batch runner partials data).collectAlong order) fun e => do
    Run.log (.renderFailed e)
    throw e
  let doc ← Run.ofExcept (s.assemble values)
  Run.log (.renderFinished s.bindings.length)
  return doc

/-- Render a document. -/
def render (s : Scene) (runner : Runner) (partials : Entries Renderer) (data : Json) : Run Json :=
  s.renderAlong runner partials (s.batch runner partials data).order data

/-- The failures of bindings with their paths, in order. -/
def failures (s : Scene) (settled : Settled Json) : List (Path × Error) :=
  ((s.bindings.map Binding.path).zip settled.errors).filterMap fun (path, error) =>
    error.map fun e => (path, e)

/-- The outcome of every binding, in the foreground. -/
def settle (s : Scene) (partials : Entries Renderer) (data : Json) : Timed (Settled Json) := do
  let settled ← (s.batch .foreground partials data).settle
  (s.failures settled).forM fun (path, e) => Timed.log (.bindingFailed path e)
  return settled

end Scene

end DocTemplate
