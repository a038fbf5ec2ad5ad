/-
What a computation does, one thing after another.

A script tells what a computation makes known, where it gives way to others and
where it waits, and which tasks it starts and joins.  It tells nothing of values;
scripts of computations that are done one after the other are put together by
`++`.

`Script.notes` lists what is made known in the order of the program, which takes
the tasks of a join one after the other.
-/
import DocTemplate.Run.Observation

namespace DocTemplate

/-- Who carries out a script. -/
inductive Runner where
  | foreground
  | task
  deriving DecidableEq, Repr

/-- Something that a computation does. -/
inductive Act where
  /-- Make something known. -/
  | note (observation : Observation)
  /-- Give way to others. -/
  | giveWay
  /-- Wait for some milliseconds. -/
  | wait (ms : Nat)
  /-- Start tasks and, whenever one of them has completed, make the next of some
  answers known and start the next of the tasks that are queued.  After the last
  answer nothing is started and nothing is waited for any more. -/
  | join (started queued : List (List Act)) (answers : List (List Observation))

/-- What a computation does. -/
abbrev Script := List Act

mutual

/-- The number of acts in an act, itself included. -/
def Act.size : Act → Nat
  | .join started queued answers => 1 + totalSize started + totalSize queued + answers.length
  | _ => 1

/-- The number of acts in a script, its end included. -/
def Script.size : List Act → Nat
  | [] => 1
  | act :: script => act.size + Script.size script

/-- The number of acts in some scripts. -/
def totalSize : List (List Act) → Nat
  | [] => 0
  | script :: scripts => Script.size script + totalSize scripts

end

mutual

/-- What an act makes known, in the order of the program. -/
def Act.notes : Act → List Observation
  | .note o => [o]
  | .join started queued answers => allNotes started ++ allNotes queued ++ answers.flatten
  | _ => []

/-- What a script makes known, in the order of the program. -/
def Script.notes : List Act → List Observation
  | [] => []
  | act :: script => act.notes ++ Script.notes script

/-- What some scripts make known, one after the other. -/
def allNotes : List (List Act) → List Observation
  | [] => []
  | script :: scripts => Script.notes script ++ allNotes scripts

end

@[simp] theorem Script.notes_append (s t : Script) :
    Script.notes (s ++ t) = Script.notes s ++ Script.notes t := by
  induction s with
  | nil => simp [Script.notes]
  | cons act s ih => simp [Script.notes, ih, List.append_assoc]

end DocTemplate
