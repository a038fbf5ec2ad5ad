/-
Helpers that look at their context or steer the chain.
-/
import DocTemplate.Catalog.Values

namespace DocTemplate.Catalog

open Helper (proceed)

/-- A helper that takes a count, which the first argument writes. -/
def counting (f : HelperContext → Nat → Json → Timed Outcome) : Helper := fun ctx args input =>
  match Text.Word.read? (firstArg args) with
  | some count => f ctx count input
  | none => return .failure (.invalid "bad count")

/-- A helper that runs as many of the remaining stages as the first argument says,
and answers with what comes of them. -/
def running (answer : Json → Nat → Flow) : Helper := counting fun ctx count input =>
  proceed (ctx.runRemaining ctx.runner count input) fun value =>
    return .flow (answer value count)

/-- A helper that lets the chain go on with something it sees. -/
def seeing (f : HelperContext → List String → Json) : Helper := .ofRun fun ctx args _ =>
  return .next (f ctx args)

/-- Skip as many stages as the first argument says. -/
def skip : Helper := counting fun _ count input => return .flow (.skip input count)

/-- End the chain. -/
def exit : Helper := .ofRun fun _ _ input => return .exit input

/-- Run some of the remaining stages, and go on with the next stage. -/
def run : Helper := running fun value _ => .next value

/-- Run some of the remaining stages, and skip them. -/
def runSkip : Helper := running Flow.skip

/-- Run some of the remaining stages twice, and skip them with the two results. -/
def twice : Helper := counting fun ctx count input =>
  proceed (ctx.runRemaining ctx.runner count input) fun first =>
    proceed (ctx.runRemaining ctx.runner count input) fun second =>
      return .flow (.skip (.array [first, second]) count)

/-- Leave a note of the path, the arguments and the input. -/
def probe : Helper := .ofRun fun ctx args input => do
  Run.note (.noted ctx.path args input)
  return .next input

/-- Fail with an internal error. -/
def flowFail : Helper := .ofRun fun _ _ _ => throw (.internal "flow failed")

/-- The helpers of this module. -/
def steering : List (String × Helper) :=
  [("where", seeing fun ctx _ => .string ctx.path.display),
    ("opt", seeing fun ctx args => ctx.options.memberOrNull (firstArg args)),
    ("skip", skip),
    ("exit", exit),
    ("remaining", seeing fun ctx _ => .array (ctx.remaining.map Stage.toJson)),
    ("run", run),
    ("runskip", runSkip),
    ("twice", twice),
    ("has_partial", seeing fun ctx args => .bool (ctx.partial? (firstArg args)).isSome),
    ("helpers", seeing fun ctx args => .bool (ctx.resolves (firstArg args))),
    ("config", seeing fun ctx _ => ctx.config.toJson),
    ("probe", probe),
    ("flow_fail", flowFail)]

end DocTemplate.Catalog
