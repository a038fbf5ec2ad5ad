/-
Carrying out a script in virtual time.

The script is carried out by a worker, the foreground or a task; every task it
starts is carried out by another one.  Time passes in milliseconds, and within
one of them in turns.  In a turn the foreground goes first, if there is
something to go on with, and then all tasks that are ready, in a queue.  A new
task goes to the end of the queue, and so does one that goes on because a task
it waits for has completed.  A worker goes on until it gives way, waits or ends.

* Tasks that gave way are ready in the next turn, the last of them first.
* Tasks that wait for one time go on in the order in which they began to wait.
* A worker that has just started all tasks it has in flight looks after them
  directly behind them; for what completes later it is called.

A turn ends when the queue is empty, or after `turnLength` tasks had their
place in it.  No time passes while there is somebody who can go on.
-/
import DocTemplate.Run.Script

namespace DocTemplate

/-- What a worker is about. -/
inductive Standing where
  /-- It carries out its script, or waits for its tasks. -/
  | busy
  /-- It gave way, or waits for a time. -/
  | resting
  /-- It is called to go on. -/
  | called
  /-- It is at the end of its script. -/
  | ended
  deriving DecidableEq, Repr

/-- Someone who carries out a script. -/
structure Worker where
  /-- What remains of the script. -/
  script : Script
  /-- The worker who waits for it, with the number of the join it is a task of;
  none waits for the first worker. -/
  employer? : Option (Nat × Nat)
  /-- The number of tasks of that join that were started before it. -/
  index : Nat
  /-- The number of joins that are over. -/
  joins : Nat
  /-- The number of tasks it has started for its join. -/
  started : Nat
  /-- The number of these that have completed. -/
  completed : Nat
  /-- The number of these that it has answered to. -/
  answered : Nat
  standing : Standing

/-- Whether a worker is called to go on. -/
def Worker.isCalled (w : Worker) : Bool := w.standing = .called

/-- What happens while scripts are carried out. -/
inductive Report where
  | noted (observation : Observation)
  /-- A task with an index completes, and a worker waits for it. -/
  | completed (employer index : Nat)
  /-- The first worker is at the end of its script. -/
  | ended

/-- What is made known. -/
def Report.observation? : Report → Option Observation
  | .noted o => some o
  | _ => none

/-- What there is between two places in the queue. -/
structure Scheduler where
  /-- Who the first worker is. -/
  runner : Runner
  time : Nat
  workers : Array Worker
  /-- The front of the queue. -/
  ready : List Nat
  /-- The back of the queue, the last one first. -/
  called : List Nat
  /-- Those who gave way, the last one first. -/
  gaveWay : List Nat
  /-- Those who wait, with the time they wait for, in the order in which they go
  on. -/
  waiting : List (Nat × Nat)
  /-- The number of places that are left in the turn. -/
  places : Nat
  /-- What has happened when, the last thing first. -/
  reports : List (Nat × Report)

namespace Scheduler

/-- The greatest number of places in a turn. -/
def turnLength : Nat := 61

/-- The number of the first worker. -/
def first : Nat := 0

/-- Whether a worker is the foreground. -/
def isForeground (s : Scheduler) (id : Nat) : Bool := id = first && s.runner = .foreground

/-- Something happens. -/
def report (s : Scheduler) (r : Report) : Scheduler :=
  { s with reports := (s.time, r) :: s.reports }

/-- A worker changes. -/
def change (s : Scheduler) (id : Nat) (f : Worker → Worker) : Scheduler :=
  { s with workers := s.workers.modify id f }

/-- A worker is called to go on, unless it is called already; the foreground
stands in no queue. -/
def call (s : Scheduler) (id : Nat) : Scheduler :=
  match s.workers[id]? with
  | some w =>
    if w.isCalled then s
    else
      let s := s.change id fun w => { w with standing := .called }
      if s.isForeground id then s else { s with called := id :: s.called }
  | none => s

/-- A worker starts a task of its join. -/
def start (s : Scheduler) (employer : Nat) (script : Script) : Scheduler :=
  match s.workers[employer]? with
  | some w =>
    let id := s.workers.size
    let worker : Worker := ⟨script, some (employer, w.joins), w.started, 0, 0, 0, 0, .called⟩
    { s with workers := s.workers.push worker, called := id :: s.called }.change employer
      fun w => { w with started := w.started + 1 }
  | none => s

/-- A time put among those that somebody waits for, behind equal ones. -/
def insertWaiting (time id : Nat) : List (Nat × Nat) → List (Nat × Nat)
  | [] => [(time, id)]
  | (t, i) :: ws =>
    if time < t then (time, id) :: (t, i) :: ws else (t, i) :: insertWaiting time id ws

/-- A worker is at the end of its script. -/
def finish (s : Scheduler) (id : Nat) : Scheduler :=
  match s.workers[id]? with
  | some w =>
    let s := s.change id fun w => { w with standing := .ended }
    match w.employer? with
    | none => s.report .ended
    | some (employer, join) =>
      let s := s.report (.completed employer w.index)
      -- When the join is over nobody waits for the task.
      if s.workers[employer]?.any (·.joins = join) then
        (s.change employer fun e => { e with completed := e.completed + 1 }).call employer
      else s
  | none => s

/-- The numbers of tasks that a worker has started, that have completed and that
it has answered to. -/
def tally (s : Scheduler) (id : Nat) : Nat × Nat × Nat :=
  match s.workers[id]? with
  | some w => (w.started, w.completed, w.answered)
  | none => (0, 0, 0)

/-- A worker answers to the tasks that have completed: the tasks that are queued
and the answers that remain after that. -/
def answer (id : Nat) : (completed : Nat) → List Script → List (List Observation) → Scheduler →
    List Script × List (List Observation) × Scheduler
  | 0, queued, answers, s => (queued, answers, s)
  | _ + 1, queued, [], s => (queued, [], s)
  | n + 1, queued, answer' :: answers, s =>
    let s := answer'.foldl (fun s o => s.report (.noted o)) s
    let s := s.change id fun w => { w with answered := w.answered + 1 }
    match queued, answers with
    | script :: queued, _ :: _ => answer id n queued answers (s.start id script)
    | queued, answers => answer id n queued answers s

/-- A worker carries out a script, as far as it can go. -/
def carryOut (id : Nat) : Script → Scheduler → Scheduler
  | [], s => s.finish id
  | .note o :: script, s => carryOut id script (s.report (.noted o))
  | .giveWay :: script, s =>
    { s with gaveWay := id :: s.gaveWay }.change id
      fun w => { w with script, standing := .resting }
  | .wait ms :: script, s =>
    { s with waiting := insertWaiting (s.time + ms) id s.waiting }.change id
      fun w => { w with script, standing := .resting }
  | .join started queued answers :: script, s =>
    let (before, completed, answered) := s.tally id
    let s := started.foldl (fun s task => s.start id task) s
    let (queued, answers, s) := answer id (completed - answered) queued answers s
    if answers.isEmpty then
      carryOut id script <| s.change id fun w =>
        { w with joins := w.joins + 1, started := 0, completed := 0, answered := 0 }
    else
      let s := s.change id fun w => { w with script := .join [] queued answers :: script }
      let (after, _, answered) := s.tally id
      if before < after && after - before = after - answered then s.call id else s

/-- A worker that is called goes on. -/
def goOn (s : Scheduler) (id : Nat) : Scheduler :=
  match s.workers[id]? with
  | some w =>
    let s := s.change id fun w => { w with script := [], standing := .busy }
    carryOut id w.script s
  | none => s

/-- Whether the foreground is called. -/
def foregroundCalled (s : Scheduler) : Bool :=
  s.runner = .foreground && s.workers[first]?.any (·.isCalled)

/-- Those who wait for the next time are called. -/
def callDue (s : Scheduler) : Scheduler :=
  match s.waiting with
  | [] => s
  | (time, _) :: _ =>
    let due := s.waiting.takeWhile (·.1 = time)
    (due.map Prod.snd).foldl call { s with time, waiting := s.waiting.drop due.length }

/-- Those who gave way are called or, when nobody can go on, those who wait for
the next time. -/
def callNext (s : Scheduler) : Scheduler :=
  if s.gaveWay.isEmpty && s.ready.isEmpty && !s.foregroundCalled then s.callDue
  else s.gaveWay.foldl call { s with gaveWay := [] }

/-- The queue in one piece. -/
def gather (s : Scheduler) : Scheduler :=
  { s with ready := s.ready ++ s.called.reverse, called := [] }

/-- A new turn begins. -/
def beginTurn (s : Scheduler) : Scheduler :=
  let s := { s.gather.callNext with places := turnLength }
  if s.foregroundCalled then s.goOn first else s

/-- Whether there is nobody who can go on, now or later. -/
def isIdle (s : Scheduler) : Bool :=
  s.ready.isEmpty && s.called.isEmpty && s.gaveWay.isEmpty && s.waiting.isEmpty
    && !(s.workers[first]?.any (·.isCalled))

/-- Scripts are carried out for some number of places and turns. -/
def run : Nat → Scheduler → Scheduler
  | 0, s => s
  | bound + 1, s =>
    match s.places, s.ready, s.called with
    | places + 1, id :: ready, _ => run bound ({ s with places, ready }.goOn id)
    | _ + 1, [], _ :: _ => run bound s.gather
    | _, _, _ =>
      let s := s.beginTurn
      if s.isIdle then s else run bound s

/-- The first worker alone, with a script that nobody has begun to carry out. -/
def beginning (runner : Runner) (script : Script) : Scheduler where
  runner := runner
  time := 0
  workers := #[⟨script, none, 0, 0, 0, 0, 0, .busy⟩]
  ready := []
  called := []
  gaveWay := []
  waiting := []
  places := 0
  reports := []

end Scheduler

/-- The task of the first worker that completes. -/
def Report.task? : Report → Option Nat
  | .completed employer index => if employer = Scheduler.first then some index else none
  | _ => none

namespace Script

/-- All that happens when a script is carried out, with the times.  An act takes
no more than nine steps of the scheduler, so all of it is carried out. -/
def play (runner : Runner) (script : Script) : List (Nat × Report) :=
  (Scheduler.run (9 * Script.size script)
    ((Scheduler.beginning runner script).call Scheduler.first)).reports.reverse

/-- The tasks of the first worker in the order in which they complete; tasks are
known by their places among all of a join. -/
def completions (runner : Runner) (script : Script) : List Nat :=
  (play runner script).filterMap fun (_, report) => report.task?

/-- The order in which the tasks of a join complete if all of them are waited
for. -/
def completionOrder (runner : Runner) (started queued : List Script) : List Nat :=
  completions runner [.join started queued ((started ++ queued).map fun _ => [])]

end Script

end DocTemplate
