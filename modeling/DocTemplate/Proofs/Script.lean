/-
Scripts that can be carried out to their end.

A join comes to its end when there is a task for every answer that it waits for.
`Deliverable` says so in terms of numbers, those of the tasks in flight, of the
tasks that are queued and of the answers, and the three numbers keep to it when an
answer is made (`Deliverable.answer`).

* `Script.Sound` — all joins of a script, and of the scripts of its tasks, are
  deliverable;
* `Script.cost` — a bound on the steps that a scheduler takes for a script;
* `Script.tasks` — the tasks that the worker of a script starts, by their places.
-/
import DocTemplate.Run.Scheduler

namespace DocTemplate

/-! ### Joins -/

/-- A join with some tasks in flight and some more that are queued can make some
answers, and starts all of these tasks before the last one. -/
structure Deliverable (inFlight queued answers : Nat) : Prop where
  enough : answers ≤ inFlight + queued
  inFlight : 0 < answers → 0 < inFlight
  used : queued < answers ∨ queued = 0

namespace Deliverable

variable {inFlight queued answers : Nat}

/-- After an answer that is not the last one the next task takes the place of the
one that has completed. -/
theorem answer (h : Deliverable inFlight (queued + 1) (answers + 2)) :
    Deliverable inFlight queued (answers + 1) := by
  obtain ⟨henough, hflight, hused⟩ := h
  refine ⟨by omega, fun _ => hflight (by omega), by omega⟩

/-- With nothing queued an answer leaves one task less in flight. -/
theorem answer_of_nil (h : Deliverable (inFlight + 1) 0 (answers + 1)) :
    Deliverable inFlight 0 answers := by
  obtain ⟨henough, hflight, hused⟩ := h
  refine ⟨by omega, fun _ => by omega, .inr rfl⟩

/-- Nothing is queued any more at the last answer. -/
theorem queued_eq_zero (h : Deliverable inFlight queued answers) (ha : answers ≤ 1) :
    queued = 0 := by
  have := h.used
  omega

end Deliverable

/-! ### Sound scripts -/

mutual

/-- If an act is a join it is deliverable, and its tasks are sound. -/
def Act.Sound : Act → Prop
  | .join started queued answers =>
    Deliverable started.length queued.length answers.length ∧ AllSound started ∧ AllSound queued
  | _ => True

/-- All joins of a script are deliverable, and their tasks are sound. -/
def Script.Sound : List Act → Prop
  | [] => True
  | act :: script => act.Sound ∧ Script.Sound script

/-- All of some scripts are sound. -/
def AllSound : List (List Act) → Prop
  | [] => True
  | script :: scripts => Script.Sound script ∧ AllSound scripts

end

theorem allSound_iff {scripts : List Script} :
    AllSound scripts ↔ ∀ script ∈ scripts, Script.Sound script := by
  induction scripts with
  | nil => simp [AllSound]
  | cons script scripts ih => simp [AllSound, ih]

namespace Script

/-- What some scripts make known of one kind, one after the other. -/
theorem filterMap_allNotes {β : Type} (f : Observation → Option β) (scripts : List Script) :
    (allNotes scripts).filterMap f = scripts.flatMap fun s => (Script.notes s).filterMap f := by
  induction scripts with
  | nil => rfl
  | cons s scripts ih => rw [allNotes, List.filterMap_append, ih, List.flatMap_cons]

theorem sound_append {s t : Script} :
    Script.Sound (s ++ t) ↔ Script.Sound s ∧ Script.Sound t := by
  induction s with
  | nil => simp [Script.Sound]
  | cons act s ih => simp [Script.Sound, ih, and_assoc]

/-- A script is sound when some tasks of the join that it begins with are in flight
already. -/
def SoundWith (inFlight : Nat) : Script → Prop
  | .join started queued answers :: script =>
    Deliverable (inFlight + started.length) queued.length answers.length
      ∧ AllSound started ∧ AllSound queued ∧ Script.Sound script
  | script => inFlight = 0 ∧ Script.Sound script

theorem soundWith_zero {script : Script} : SoundWith 0 script ↔ Script.Sound script := by
  match script with
  | [] => simp [SoundWith]
  | .join started queued answers :: script => simp [SoundWith, Script.Sound, Act.Sound, and_assoc]
  | .note _ :: script => simp [SoundWith]
  | .giveWay :: script => simp [SoundWith]
  | .wait _ :: script => simp [SoundWith]

/-! ### What a script takes -/

theorem size_pos (script : Script) : 0 < Script.size script := by
  cases script with
  | nil => simp [Script.size]
  | cons act script =>
    have : 0 < act.size := by
      cases act with
      | join => rw [Act.size]; omega
      | note | giveWay | wait => exact Nat.one_pos
    rw [Script.size]
    omega

/-- A bound on the steps that a scheduler takes for a script. -/
def cost (script : Script) : Nat := 9 * (Script.size script - 1)

theorem cost_add (script : Script) : script.cost + 9 = 9 * Script.size script := by
  have := size_pos script
  unfold cost
  omega

@[simp] theorem cost_nil : cost [] = 0 := rfl

theorem cost_cons (act : Act) (script : Script) :
    cost (act :: script) = 9 * act.size + cost script := by
  have := size_pos script
  unfold cost
  rw [Script.size]
  omega

/-- A task that is started counts no more among those that a join has to start. -/
theorem cost_join_start (task : Script) (started queued : List Script)
    (answers : List (List Observation)) (script : Script) :
    cost (.join (task :: started) queued answers :: script)
      = cost (.join started queued answers :: script) + (task.cost + 9) := by
  rw [cost_cons, cost_cons, cost_add]
  simp only [Act.size, totalSize]
  omega

/-- So does a task that is started after an answer. -/
theorem cost_join_answer (task : Script) (queued : List Script) (answer : List Observation)
    (answers : List (List Observation)) (script : Script) :
    cost (.join [] queued answers :: script) + (task.cost + 9)
      ≤ cost (.join [] (task :: queued) (answer :: answers) :: script) := by
  rw [cost_cons, cost_cons, cost_add]
  simp only [Act.size, totalSize, List.length_cons]
  omega

/-! ### What a script makes happen -/

/-- The tasks that the worker of a script starts when it has started some tasks of
its join already: their places, join by join. -/
def tasksFrom : (started : Nat) → Script → List Nat
  | _, [] => []
  | n, .join started queued _ :: script =>
    List.range' n (started.length + queued.length) ++ tasksFrom 0 script
  | n, _ :: script => tasksFrom n script

/-- The tasks that the worker of a script starts, by their places in their joins. -/
def tasks (script : Script) : List Nat := tasksFrom 0 script

end Script

end DocTemplate
