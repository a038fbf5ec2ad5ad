/-
Scripts whose joins have one place.

A script is *single* when all its joins have one place: a task is started when the one
before it has completed, and every task is answered to.  What is asked about such scripts
are the calls of helpers in them, which the answers do not add to.

* `Script.invocations` — the calls in a script, in the order of the program;
* `Script.Single` — all joins have one place;
* `Script.SingleWith` — so have they when the first of them has begun.
-/
import DocTemplate.Proofs.Script

namespace DocTemplate

/-! ### Calls of helpers -/

/-- A helper is called. -/
structure Invocation where
  path : Path
  name : String
  args : List String
  input : Json
  deriving DecidableEq, Repr

/-- The call that is made known. -/
def Observation.invocation? : Observation → Option Invocation
  | .invoked path name args input => some ⟨path, name, args, input⟩
  | _ => none

/-- The call that is reported. -/
def Report.invocation? (r : Report) : Option Invocation :=
  r.observation?.bind Observation.invocation?

/-- Some answers are made without a call. -/
def Quiet (answers : List (List Observation)) : Prop :=
  ∀ answer ∈ answers, answer.filterMap Observation.invocation? = []

theorem Quiet.flatten {answers : List (List Observation)} (h : Quiet answers) :
    answers.flatten.filterMap Observation.invocation? = [] := by
  induction answers with
  | nil => rfl
  | cons answer answers ih =>
    rw [List.flatten_cons, List.filterMap_append, h answer (by simp),
      ih fun a ha => h a (List.mem_cons_of_mem _ ha), List.append_nil]

namespace Script

/-- The calls in a script, in the order of the program. -/
def invocations (script : Script) : List Invocation :=
  (Script.notes script).filterMap Observation.invocation?

@[simp] theorem invocations_nil : invocations [] = [] := rfl

@[simp] theorem invocations_append (s t : Script) :
    invocations (s ++ t) = invocations s ++ invocations t := by
  rw [invocations, notes_append, List.filterMap_append]
  rfl

variable {script : Script} {started queued : List Script} {answers : List (List Observation)}

theorem invocations_note (o : Observation) :
    invocations (.note o :: script) = o.invocation?.toList ++ invocations script := by
  rw [invocations, Script.notes, Act.notes, List.filterMap_append]
  cases ho : o.invocation? <;> simp [ho, invocations]

@[simp] theorem invocations_giveWay : invocations (.giveWay :: script) = invocations script := rfl

@[simp] theorem invocations_wait (ms : Nat) :
    invocations (.wait ms :: script) = invocations script := rfl

theorem invocations_start (task : Script) :
    invocations (.join (task :: started) queued answers :: script)
      = invocations task ++ invocations (.join started queued answers :: script) := by
  simp only [invocations, Script.notes, Act.notes, allNotes, List.filterMap_append,
    List.append_assoc]

theorem invocations_queued (task : Script) :
    invocations (.join [] (task :: queued) answers :: script)
      = invocations task ++ invocations (.join [] queued answers :: script) := by
  simp only [invocations, Script.notes, Act.notes, allNotes, List.filterMap_append,
    List.append_assoc, List.nil_append]

/-- A quiet answer counts for nothing. -/
theorem invocations_answer {answer : List Observation}
    (h : answer.filterMap Observation.invocation? = []) :
    invocations (.join started queued (answer :: answers) :: script)
      = invocations (.join started queued answers :: script) := by
  simp only [invocations, Script.notes, Act.notes, List.flatten_cons, List.filterMap_append, h,
    List.nil_append]

end Script

/-! ### Single scripts -/

/-- A join with one place: there is one task in flight as long as any is left, and every
task is answered to. -/
structure SinglePlace (inFlight queued answers : Nat) : Prop where
  one : inFlight ≤ 1
  all : answers = inFlight + queued
  used : inFlight = 0 → queued = 0

theorem SinglePlace.deliverable {inFlight queued answers : Nat}
    (h : SinglePlace inFlight queued answers) : Deliverable inFlight queued answers := by
  obtain ⟨hone, hall, hused⟩ := h
  exact ⟨by omega, fun _ => by omega, by omega⟩

mutual

/-- If an act is a join it has one place, and its tasks are single. -/
def Act.Single : Act → Prop
  | .join started queued answers =>
    SinglePlace started.length queued.length answers.length ∧ Quiet answers
      ∧ AllSingle started ∧ AllSingle queued
  | _ => True

/-- All joins of a script have one place, and so have those of its tasks. -/
def Script.Single : List Act → Prop
  | [] => True
  | act :: script => act.Single ∧ Script.Single script

/-- All of some scripts are single. -/
def AllSingle : List (List Act) → Prop
  | [] => True
  | script :: scripts => Script.Single script ∧ AllSingle scripts

end

theorem allSingle_iff {scripts : List Script} :
    AllSingle scripts ↔ ∀ script ∈ scripts, Script.Single script := by
  induction scripts with
  | nil => simp [AllSingle]
  | cons script scripts ih => simp [AllSingle, ih]

mutual

theorem Act.Single.sound : ∀ {act : Act}, act.Single → act.Sound
  | .join _ _ _, h => ⟨h.1.deliverable, AllSingle.sound h.2.2.1, AllSingle.sound h.2.2.2⟩
  | .note _, _ => trivial
  | .giveWay, _ => trivial
  | .wait _, _ => trivial

theorem Script.Single.sound : ∀ {script : List Act}, Script.Single script → Script.Sound script
  | [], _ => trivial
  | _ :: _, h => ⟨h.1.sound, Script.Single.sound h.2⟩

theorem AllSingle.sound : ∀ {scripts : List (List Act)}, AllSingle scripts → AllSound scripts
  | [], _ => trivial
  | _ :: _, h => ⟨Script.Single.sound h.1, AllSingle.sound h.2⟩

end

namespace Script

@[simp] theorem single_append {s t : Script} :
    Script.Single (s ++ t) ↔ Script.Single s ∧ Script.Single t := by
  induction s with
  | nil => simp [Script.Single]
  | cons act s ih => simp [Script.Single, ih, and_assoc]

/-- A script is single when some tasks of the join that it begins with are in flight
already. -/
def SingleWith (inFlight : Nat) : Script → Prop
  | .join started queued answers :: script =>
    SinglePlace (inFlight + started.length) queued.length answers.length ∧ Quiet answers
      ∧ AllSingle started ∧ AllSingle queued ∧ Script.Single script
  | script => inFlight = 0 ∧ Script.Single script

theorem singleWith_zero {script : Script} : SingleWith 0 script ↔ Script.Single script := by
  match script with
  | [] => simp [SingleWith]
  | .join started queued answers :: script =>
    simp [SingleWith, Script.Single, Act.Single, and_assoc]
  | .note _ :: script => simp [SingleWith]
  | .giveWay :: script => simp [SingleWith]
  | .wait _ :: script => simp [SingleWith]

end Script

end DocTemplate
