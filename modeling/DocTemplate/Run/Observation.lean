/-
What a run makes known besides its result.

* `Progress` — the account that a batch gives its `Observer` of one task;
* `Notice` — the lines of the log, with `level` and `message`;
* `Observation` — either of these, an invocation of a helper, a note that a
  helper leaves, or a point where a chain gives way.
-/
import DocTemplate.Error

namespace DocTemplate

/-- The account of one completed task of a batch. -/
structure Progress where
  label : String
  index : Nat
  succeeded : Bool
  value : Option Json
  error : Option String
  pending : Nat
  total : Nat
  complete : Nat
  deriving DecidableEq, Repr

/-- Somebody who is told of every task that completes, known by a name.  A call of
an observer is taken to return; what it does with the account is its own affair. -/
structure Observer where
  name : String
  deriving DecidableEq, Repr

/-- An observer of no particular name. -/
def Observer.standard : Observer := ⟨"observer"⟩

/-- How much of a batch is complete, in hundredths, rounded down. -/
def Progress.percent (p : Progress) : Nat := p.complete * 100 / p.total

/-- How serious a line of the log is. -/
inductive Level where
  | debug
  | info
  | warn
  deriving DecidableEq, Repr

/-- The word for a level. -/
def Level.word : Level → String
  | .debug => "DEBUG"
  | .info => "INFO"
  | .warn => "WARN"

/-- What a line of the log reports. -/
inductive Notice where
  | chainExited (path : Path) (stage : Nat)
  | batchAborted (label : String) (index detached : Nat)
  | taskCompleted (progress : Progress)
  | elementsJoined (path : Path) (subStages : Nat) (boundary : Bool)
  | renderStarted (bindings : Nat)
  | renderFailed (error : Error)
  | bindingFailed (path : Path) (error : Error)
  | renderFinished (bindings : Nat)
  | templateCompiled (bindings helpers partials : Nat)
  | helperReplaced (name : String)
  | fileRead (name : String) (yaml : Bool)
  deriving DecidableEq, Repr

namespace Notice

/-- How serious a notice is. -/
def level : Notice → Level
  | .renderFailed _ | .bindingFailed .. => .warn
  | .templateCompiled .. => .info
  | _ => .debug

/-- A named item of a line of the log. -/
def item (name value : String) : String := name ++ "=" ++ value

/-- The wording of a line: what happened, then items; a time taken is measured
by the clock of the day and stands as `_`. -/
def line (what : String) (items : List String) : String :=
  "jsont." ++ what ++ " - " ++ String.intercalate ", " items

/-- The wording of a notice. -/
def message : Notice → String
  | .chainExited path stage =>
    line "stack.exit: chain exited early" [item "path" path.display, item "stage" (toString stage)]
  | .batchAborted label index detached =>
    line "batch.abort: first failure wins, in-flight tasks detached"
      [item "batch" label, item "index" (toString index), item "detached" (toString detached)]
  | .taskCompleted p =>
    line "batch.progress: task completed"
      [item "batch" p.label, item "index" (toString p.index), item "ok" (toString p.succeeded),
        item "complete" (toString p.complete ++ "/" ++ toString p.total), item "duration_ms" "_"]
  | .elementsJoined path subStages boundary =>
    line "map.join: elements joined"
      [item "path" path.display, item "sub_stages" (toString subStages),
        item "boundary" (toString boundary)]
  | .renderStarted bindings =>
    line "render.start: rendering template" [item "bindings" (toString bindings)]
  | .renderFailed error => line "render.failed: binding failed" [item "error" error.message]
  | .bindingFailed path error =>
    line "render.failed: binding failed" [item "path" path.display, item "error" error.message]
  | .renderFinished bindings =>
    line "render.finish: template rendered"
      [item "bindings" (toString bindings), item "duration_ms" "_"]
  | .templateCompiled bindings helpers partials =>
    line "compile.done: template compiled"
      [item "bindings" (toString bindings), item "helpers" (toString helpers),
        item "partials" (toString partials)]
  | .helperReplaced name => line "registry.replace: helper replaced" [item "helper" name]
  | .fileRead name yaml =>
    line "engine.load: template file read" [item "path" name, item "yaml" (toString yaml)]

/-- A line of the log. -/
def text (n : Notice) : String := n.level.word ++ " " ++ n.message

end Notice

/-- What a run makes known. -/
inductive Observation where
  /-- A helper is called. -/
  | invoked (path : Path) (name : String) (args : List String) (input : Json)
  /-- A helper leaves a note. -/
  | noted (path : Path) (args : List String) (input : Json)
  /-- An observer hears of a task. -/
  | progressed (progress : Progress)
  /-- A chain gives way before a stage. -/
  | gaveWay (path : Path) (stage : Nat)
  /-- A line is written to the log. -/
  | logged (notice : Notice)
  deriving DecidableEq, Repr

end DocTemplate
