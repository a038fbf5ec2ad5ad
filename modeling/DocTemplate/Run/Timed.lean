/-
Computations in virtual time.

A `Timed` value comes with the script of its computation.  Doing one computation
after another puts the second script behind the first, which makes `Timed` a
lawful monad.

What a computation makes known stands in its script in the order of the program.
`Timed.chronicle` gives it in the order in which it happens when the foreground
carries out the script, with the times, and `Timed.duration` tells when the
computation is at its end.  A chronicle may go on past this end: tasks that
nobody waits for any more run to their end.

`Run` adds failure, and `Ending` panics as well.
-/
import DocTemplate.Run.Scheduler

namespace DocTemplate

universe u v

/-- Something made known at a time. -/
structure Stamped where
  time : Nat
  observation : Observation
  deriving DecidableEq, Repr

/-- What is made known, in the order in which it happens. -/
abbrev Trace := List Stamped

/-- A value and the script of its computation. -/
structure Timed (α : Type u) where
  value : α
  script : Script

namespace Timed

variable {α : Type u} {β : Type v}

/-- A value at once. -/
def now (a : α) : Timed α := ⟨a, []⟩

/-- One computation after another. -/
def andThen (x : Timed α) (f : α → Timed β) : Timed β :=
  let y := f x.value
  ⟨y.value, x.script ++ y.script⟩

instance : Monad Timed.{u} where
  pure := now
  bind := andThen

@[simp] theorem value_pure (a : α) : (pure a : Timed α).value = a := rfl

@[simp] theorem script_pure (a : α) : (pure a : Timed α).script = [] := rfl

section Sequence

variable {α β : Type u}

@[simp] theorem value_bind (x : Timed α) (f : α → Timed β) :
    (x >>= f).value = (f x.value).value := rfl

@[simp] theorem script_bind (x : Timed α) (f : α → Timed β) :
    (x >>= f).script = x.script ++ (f x.value).script := rfl

end Sequence

@[ext] theorem ext {x y : Timed α} (hv : x.value = y.value) (hs : x.script = y.script) :
    x = y := by
  cases x; cases y; simp_all

instance : LawfulMonad Timed.{u} := LawfulMonad.mk' Timed
  (fun x => by
    show x.andThen (fun a => now a) = x
    simp [andThen, now])
  (fun a f => by apply ext <;> simp)
  (fun x f g => by apply ext <;> simp [List.append_assoc])

/-- Let time pass; for no time at all there is nothing to wait for. -/
def wait (ms : Nat) : Timed Unit := ⟨(), if ms = 0 then [] else [.wait ms]⟩

/-- Give way to others. -/
def giveWay : Timed Unit := ⟨(), [.giveWay]⟩

/-- Make something known. -/
def note (o : Observation) : Timed Unit := ⟨(), [.note o]⟩

/-- Write a line to the log. -/
def log (n : Notice) : Timed Unit := note (.logged n)

/-- What a computation in the foreground makes known, in the order in which it
happens. -/
def chronicle (x : Timed α) : Trace :=
  (Script.play .foreground x.script).filterMap fun (time, report) =>
    report.observation?.map fun o => ⟨time, o⟩

/-- The milliseconds that a computation in the foreground takes. -/
def duration (x : Timed α) : Nat :=
  ((Script.play .foreground x.script).findSome? fun (time, report) => match report with
    | .ended => some time
    | _ => none).getD 0

end Timed

/-- A computation in virtual time that may fail. -/
abbrev Run (α : Type) := ExceptT Error Timed α

namespace Run

variable {α β : Type}

/-- Write a line to the log. -/
def log (n : Notice) : Run Unit := ExceptT.lift (Timed.log n)

/-- Make something known. -/
def note (o : Observation) : Run Unit := ExceptT.lift (Timed.note o)

/-- A result that is there at once. -/
def ofExcept (r : Except Error α) : Run α := ExceptT.mk (pure r)

/-- The result of a run, with its script. -/
def timed (r : Run α) : Timed (Except Error α) := r.run

/-- The result of a run. -/
def result (r : Run α) : Except Error α := r.timed.value

@[simp] theorem result_pure (a : α) : (pure a : Run α).result = .ok a := rfl

@[simp] theorem result_throw (e : Error) : (throw e : Run α).result = .error e := rfl

@[simp] theorem result_log (n : Notice) : (log n).result = .ok () := rfl

@[simp] theorem result_note (o : Observation) : (note o).result = .ok () := rfl

@[simp] theorem result_ofExcept (r : Except Error α) : (ofExcept r).result = r := rfl

@[simp] theorem result_mk (x : Timed (Except Error α)) :
    Run.result (ExceptT.mk x) = x.value := rfl

@[simp] theorem result_lift (x : Timed α) :
    Run.result (ExceptT.lift x) = (.ok x.value : Except Error α) := rfl

/-- The result of one run after another: that of the second, on what the first
gives, unless the first fails. -/
@[simp] theorem result_bind (x : Run α) (f : α → Run β) :
    (x >>= f).result = x.result.bind fun a => (f a).result := by
  show (ExceptT.bindCont f x.timed.value).value = _
  unfold result
  cases x.timed.value <;> rfl

end Run

/-- How something ends that is let to run. -/
inductive Ending (α : Type) where
  | value (result : α)
  | failure (error : Error)
  | panic (payload : Option String)

namespace Ending

variable {α : Type}

/-- The value of an ending that has one. -/
def value? : Ending α → Option α
  | .value a => some a
  | _ => none

/-- A run, which does not panic. -/
def ofRun (r : Run α) : Timed (Ending α) := do
  match ← r.timed with
  | .ok a => return .value a
  | .error e => return .failure e

end Ending

end DocTemplate
