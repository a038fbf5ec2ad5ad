/-
Ceilings and time.

A batch that settles starts its tasks in their order, each as soon as its ceiling allows it, so a
higher ceiling makes nothing in it later.

* `Script.play_alone`, `Timed.duration_of_waits` — how long it takes to wait;
* `Batch.eager` — what is told of a batch that settles follows the law of greedy starts;
* `Batch.keepsTime` — of tasks that only wait, what is told is what happens;
* `Batch.raising_ceiling` — two ceilings side by side, and the least and the greatest.
-/
import DocTemplate.Proofs.Punctual
import Mathlib.Algebra.Order.Monoid.Unbundled.WithTop
import Mathlib.Data.List.Induction
import Mathlib.Order.WithBot

namespace DocTemplate

open Timeline

/-! ### The end of a script -/

theorem Timed.duration_eq {α : Type} {x : Timed α} {time : Nat} (h : Script.Sound x.script)
    (hended : (time, Report.ended) ∈ Script.play .foreground x.script) : x.duration = time := by
  have hone := Script.countP_isEnded .foreground h
  rw [duration]
  generalize Script.play .foreground x.script = reports at hended hone
  induction reports with
  | nil => simp at hended
  | cons r reports ih =>
    obtain ⟨t, report⟩ := r
    rw [List.countP_cons] at hone
    cases report with
    | ended =>
      rcases List.mem_cons.mp hended with heq | hmem
      · exact (Prod.mk.inj heq).1.symm
      · -- Another end behind this one would be one too many.
        have hpos : 0 < reports.countP fun r => r.2.isEnded :=
          List.countP_pos_iff.mpr ⟨_, hmem, rfl⟩
        have hend : Report.ended.isEnded = true := rfl
        rw [if_pos hend] at hone
        exact absurd hone (by omega)
    | noted o => exact ih (by simpa using hended) hone
    | completed employer index => exact ih (by simpa using hended) hone

/-! ### Waiting alone -/

namespace Scheduler

/-- The foreground alone, waiting for a time. -/
def alone (script : Script) (now time : Nat) : Scheduler where
  runner := .foreground
  time := now
  workers := #[⟨script, none, 0, 0, 0, 0, 0, .resting⟩]
  ready := []
  called := []
  gaveWay := []
  waiting := [(time, first)]
  places := turnLength
  reports := []

theorem run_alone_wait (n ms : Nat) (script : Script) (now time : Nat) :
    run (n + 1) (alone (.wait ms :: script) now time) = run n (alone script time (time + ms)) := by
  simp [run, alone, beginTurn, gather, callNext, callDue, call, foregroundCalled, change, goOn,
    carryOut, insertWaiting, isIdle, isForeground, Worker.isCalled, turnLength, first]

theorem reports_run_alone_nil (n now time : Nat) :
    (run (n + 1) (alone [] now time)).reports = [(time, .ended)] := by
  simp [run, alone, beginTurn, gather, callNext, callDue, call, foregroundCalled, change, goOn,
    carryOut, finish, report, isIdle, isForeground, Worker.isCalled, turnLength, first]

theorem run_beginning_wait (n ms : Nat) (script : Script) :
    run (n + 1) ((beginning .foreground (.wait ms :: script)).call first)
      = run n (alone script 0 ms) := by
  simp [run, beginning, alone, beginTurn, gather, callNext, call, foregroundCalled, change, goOn,
    carryOut, insertWaiting, isIdle, isForeground, Worker.isCalled, turnLength, first]

theorem reports_run_beginning_nil (n : Nat) :
    (run (n + 1) ((beginning .foreground []).call first)).reports = [(0, .ended)] := by
  simp [run, beginning, beginTurn, gather, callNext, call, foregroundCalled, change, goOn, carryOut,
    finish, report, isIdle, isForeground, Worker.isCalled, turnLength, first]

theorem reports_run_alone {script : Script} (h : script.OnlyWaits) {n : Nat}
    (hn : script.length < n) (now time : Nat) :
    (run n (alone script now time)).reports = [(time + script.waits, .ended)] := by
  obtain ⟨n, rfl⟩ := Nat.exists_eq_succ_of_ne_zero (by omega : n ≠ 0)
  induction script generalizing n now time with
  | nil => exact reports_run_alone_nil n now time
  | cons act script ih =>
    obtain ⟨⟨ms, rfl⟩, hlater⟩ := h.of_cons
    rw [List.length_cons] at hn
    obtain ⟨n, rfl⟩ := Nat.exists_eq_succ_of_ne_zero (by omega : n ≠ 0)
    rw [run_alone_wait, ih hlater _ _ n (by omega), Script.waits, Nat.add_assoc]

end Scheduler

namespace Script

theorem OnlyWaits.size_eq {script : Script} (h : script.OnlyWaits) :
    Script.size script = script.length + 1 := by
  induction script with
  | nil => rfl
  | cons act script ih =>
    obtain ⟨⟨ms, rfl⟩, hlater⟩ := h.of_cons
    have hact : (Act.wait ms).size = 1 := by simp [Act.size]
    rw [Script.size, hact, ih hlater, Nat.add_comm]
    rfl

/-- A script that only waits comes to its end when its waiting is over. -/
theorem play_alone {script : Script} (h : script.OnlyWaits) :
    play .foreground script = [(script.waits, .ended)] := by
  rw [play, h.size_eq]
  rcases h.cases with rfl | ⟨ms, later, rfl, hlater⟩
  · rw [show 9 * (([] : Script).length + 1) = 8 + 1 from rfl, Scheduler.reports_run_beginning_nil]
    rfl
  · have hsteps : 9 * ((Act.wait ms :: later).length + 1) = (9 * later.length + 17) + 1 := by
      rw [List.length_cons]
      omega
    rw [hsteps, Scheduler.run_beginning_wait, Scheduler.reports_run_alone hlater (by omega)]
    rfl

end Script

theorem Timed.duration_of_waits {α : Type} {x : Timed α} (h : x.script.OnlyWaits) :
    x.duration = x.script.waits := by
  rw [duration, Script.play_alone h]
  rfl

/-- The span of the task that a move waits for. -/
def Move.span? (ss : List Span) : Move → Option Span
  | .start _ => none
  | .finish p => ss[p.index]?
  | .abort index _ => ss[index]?

namespace Batch

open Join

variable {α : Type} {b : Batch α}

/-! ### What is told of a batch that settles -/

/-- All tasks are started, in their order. -/
theorem starts_settle (b : Batch α) :
    Move.starts (b.joined .settle).2 = List.range b.tasks.length := by
  obtain ⟨k, moves, hk, _, _, hjoined⟩ := b.completes_order.settles
  have hlength : b.order.length = b.tasks.length := by
    rw [b.completes_order.perm.length_eq, List.length_range]
  have hle : b.tasks.length ≤ b.places + b.order.length := by omega
  rw [joined, hjoined, starts_of_advances hk, Nat.min_eq_right hle]

theorem length_spans (b : Batch α) : b.spans.length = b.tasks.length := by
  rw [spans, (timely_spans b.places_pos _).length_eq, List.length_map]

theorem filterMap_range_zip (ss : List Span) :
    (List.range ss.length).filterMap (fun i => ss[i]?.map fun s => (i, s))
      = (List.range ss.length).zip ss := by
  induction ss using List.reverseRecOn with
  | nil => rfl
  | append_singleton ss s ih =>
    have hfront : (List.range ss.length).filterMap (fun i => (ss ++ [s])[i]?.map fun s => (i, s))
        = (List.range ss.length).filterMap (fun i => ss[i]?.map fun s => (i, s)) := by
      refine List.filterMap_congr ?_
      intro i hi
      rw [List.getElem?_append_left (List.mem_range.mp hi)]
    rw [List.length_append, List.length_singleton, List.range_succ, List.filterMap_append, hfront, ih,
      List.zip_append List.length_range]
    simp

theorem filterMap_range (ss : List Span) : (List.range ss.length).filterMap (ss[·]?) = ss := by
  calc (List.range ss.length).filterMap (ss[·]?)
      = ((List.range ss.length).filterMap fun i => ss[i]?.map fun s => (i, s)).map Prod.snd := by
        simp [List.map_filterMap, Function.comp_def]
    _ = ss := by rw [filterMap_range_zip, List.map_snd_zip (by simp)]

theorem filterMap_map_start {β : Type} {g : Move → Option β} (hg : ∀ index, g (.start index) = none)
    (indices : List Nat) : (indices.map Move.start).filterMap g = [] := by
  rw [List.filterMap_map]
  exact List.filterMap_eq_nil_iff.mpr fun index _ => hg index

/-- Every task starts and ends as the timeline says. -/
theorem startedSpans_settle (b : Batch α) :
    b.startedSpans .settle = (List.range b.tasks.length).zip b.spans := by
  have hstarted : b.startedSpans .settle
      = (Move.starts (b.joined .settle).2).filterMap fun i => b.spans[i]?.map fun s => (i, s) := by
    rw [startedSpans, Move.starts, List.filterMap_filterMap]
    congr 1
    funext m
    cases m <;> rfl
  rw [hstarted, starts_settle, ← b.length_spans, filterMap_range_zip]

/-- The tasks that a join has waited for are those that have completed. -/
theorem filterMap_of_advances {f : Frame α} {outcomes : List (Except Error α)} {j k : Join α}
    {order : List Nat} {moves : List Move} (h : Advances f outcomes j order k moves)
    (ss : List Span) : moves.filterMap (Move.span? ss) = order.filterMap (ss[·]?) := by
  induction h with
  | refl => rfl
  | @step j k index outcome order moves _ _ _ ih =>
    have hspan : Move.span? ss (.finish (j.progress f index outcome)) = ss[index]? := rfl
    rw [List.filterMap_append, ih, movesAt, List.filterMap_cons, hspan,
      filterMap_map_start (fun _ => rfl), List.filterMap_cons]
    cases ss[index]? <;> rfl

/-- A batch that settles returns at the last end of its tasks. -/
theorem returnTime_settle (b : Batch α) : b.returnTime .settle = Timeline.finish b.spans := by
  obtain ⟨k, moves, hk, _, _, hjoined⟩ := b.completes_order.settles
  have htime : b.returnTime .settle
      = Timeline.finish ((b.joined .settle).2.filterMap (Move.span? b.spans)) := rfl
  rw [htime, joined, hjoined, List.filterMap_append, filterMap_map_start (fun _ => rfl),
    List.nil_append, filterMap_of_advances hk]
  -- The tasks complete in some order, which the last end does not hang on.
  refine finish_perm ?_
  have hperm := b.completes_order.perm.filterMap (b.spans[·]?)
  rwa [← b.length_spans, filterMap_range] at hperm

/-- What is carried out of a batch that settles: its tasks, with an answer to each of them. -/
theorem script_settle (b : Batch α) :
    ∃ answers, answers.length = b.tasks.length ∧ b.settle.script
      = [.join ((b.tasks.map Timed.script).take b.places)
          ((b.tasks.map Timed.script).drop b.places) answers] := by
  obtain ⟨k, moves, hk, _, _, hjoined⟩ := b.completes_order.settles
  refine ⟨(b.joined .settle).2.filterMap b.answer?, ?_, ?_⟩
  · rw [length_answers, joined, hjoined, countP_of_advances hk, b.completes_order.perm.length_eq,
      List.length_range]
  · have hscript : b.settle.script = b.script (b.joined .settle).2 := script_settleAlong b b.order
    have hall : (b.tasks.map Timed.script).take b.tasks.length = b.tasks.map Timed.script :=
      List.take_of_length_le (by rw [List.length_map])
    rw [hscript, script_eq b b.starts_settle, hall]

/-- All tasks of a batch that settles are started in their order, each as soon as the places allow
it, and the batch returns with the last of them. -/
structure Eager (b : Batch α) : Prop where
  timely : Timely b.places (b.tasks.map Timed.duration) b.spans
  started : b.startedSpans .settle = (List.range b.tasks.length).zip b.spans
  returned : b.returnTime .settle = Timeline.finish b.spans

theorem eager (b : Batch α) : b.Eager :=
  ⟨timely_spans b.places_pos _, b.startedSpans_settle, b.returnTime_settle⟩

/-! ### What is told is what happens -/

/-- A batch that settles, of tasks that only wait, is carried out at the times that are told of
it. -/
structure KeepsTime (b : Batch α) : Prop where
  durations : b.tasks.map Timed.duration = b.tasks.map (·.script.waits)
  completed : ∀ (runner : Runner) (i : Nat) (span : Span), b.spans[i]? = some span →
    (span.finish, Report.completed Scheduler.first i) ∈ Script.play runner b.settle.script
  ended : ∀ runner : Runner,
    (b.returnTime .settle, Report.ended) ∈ Script.play runner b.settle.script
  duration : b.settle.duration = b.returnTime .settle

theorem keepsTime (hwaits : ∀ task ∈ b.tasks, task.script.OnlyWaits) : b.KeepsTime := by
  have hdurations : b.tasks.map Timed.duration = b.tasks.map (·.script.waits) :=
    List.map_congr_left fun task htask => Timed.duration_of_waits (hwaits task htask)
  have hspans : b.spans
      = Timeline.spans b.places ((b.tasks.map Timed.script).map Script.waits) := by
    rw [spans, hdurations, List.map_map]
    rfl
  have hscripts : ∀ script ∈ b.tasks.map Timed.script, script.OnlyWaits := by
    intro script hscript
    obtain ⟨task, htask, rfl⟩ := List.mem_map.mp hscript
    exact hwaits task htask
  obtain ⟨answers, hlength, hscript⟩ := b.script_settle
  have hanswers : answers.length = (b.tasks.map Timed.script).length := by
    rw [hlength, List.length_map]
  have hplay (runner : Runner) := Script.play_join runner b.places_pos hscripts hanswers
  simp only [← hscript, ← hspans, ← b.returnTime_settle] at hplay
  have hsound : Script.Sound b.settle.script := by
    rw [hscript]
    exact Script.sound_join b.places_pos hscripts hanswers
  exact ⟨hdurations, fun runner => (hplay runner).1, fun runner => (hplay runner).2,
    Timed.duration_eq hsound (hplay .foreground).2⟩

/-! ### Two ceilings -/

/-- The number of tasks that a ceiling lets be in flight: at least one, and any number without a
ceiling. -/
def limit : Option Nat → WithTop Nat
  | none => ⊤
  | some n => (max 1 n : Nat)

theorem capacity_le_capacity {ceiling higher : Option Nat} (h : limit ceiling ≤ limit higher)
    (total : Nat) : capacity ceiling total ≤ capacity higher total := by
  unfold capacity
  cases higher with
  | none =>
    rw [Option.getD_none]
    omega
  | some c' =>
    cases ceiling with
    | none => exact absurd (top_le_iff.mp h) WithTop.coe_ne_top
    | some c =>
      have hle : max 1 c ≤ max 1 c' := WithTop.coe_le_coe.mp h
      simp only [Option.getD_some]
      omega

/-- The batch under another ceiling. -/
def withCeiling (b : Batch α) (ceiling : Option Nat) : Batch α := { b with ceiling }

/-- A task is told to start and to end no later than it is told elsewhere. -/
def NoLater (sooner later : Nat × Span) : Prop :=
  sooner.1 = later.1 ∧ sooner.2.NoLater later.2

theorem noLater_zip {ss ts : List Span} (h : List.Forall₂ Span.NoLater ts ss)
    (indices : List Nat) : List.Forall₂ NoLater (indices.zip ts) (indices.zip ss) := by
  induction h generalizing indices with
  | nil => simp
  | cons hts _ ih =>
    cases indices with
    | nil => simp
    | cons i indices => exact .cons ⟨rfl, hts⟩ (ih indices)

/-- Raising the ceiling of a batch that settles delays nothing: no start of a task, no end, and not
the return.  One task at a time takes the sum of the durations, and no ceiling their maximum.  When
the tasks only wait, all that happens at the times that are told. -/
theorem raising_ceiling (b : Batch α) :
    (∀ ceiling, (b.withCeiling ceiling).Eager)
      ∧ (∀ ceiling higher, limit ceiling ≤ limit higher →
          List.Forall₂ NoLater ((b.withCeiling higher).startedSpans .settle)
              ((b.withCeiling ceiling).startedSpans .settle)
            ∧ (b.withCeiling higher).returnTime .settle
              ≤ (b.withCeiling ceiling).returnTime .settle)
      ∧ (∀ c ≤ 1, (b.withCeiling (some c)).returnTime .settle
          = (b.tasks.map Timed.duration).sum)
      ∧ (b.withCeiling none).returnTime .settle = (b.tasks.map Timed.duration).foldl max 0
      ∧ ((∀ task ∈ b.tasks, task.script.OnlyWaits) →
          ∀ ceiling, (b.withCeiling ceiling).KeepsTime) := by
  have hreturn (ceiling : Option Nat) : (b.withCeiling ceiling).returnTime .settle
      = Timeline.finish (Timeline.spans (capacity ceiling b.tasks.length)
          (b.tasks.map Timed.duration)) := returnTime_settle _
  refine ⟨fun ceiling => eager _, ?_, ?_, ?_, fun hwaits ceiling => keepsTime hwaits⟩
  · intro ceiling higher hle
    have hnoLater := (b.withCeiling ceiling).eager.timely.noLater
      (b.withCeiling higher).eager.timely (capacity_le_capacity hle b.tasks.length)
    rw [startedSpans_settle, startedSpans_settle, returnTime_settle, returnTime_settle]
    exact ⟨noLater_zip hnoLater _, finish_le_finish hnoLater⟩
  · intro c hc
    have hone : capacity (some c) b.tasks.length = 1 := by
      rw [capacity, Option.getD_some]
      omega
    rw [hreturn, hone, finish_spans_one]
  · rw [hreturn]
    refine finish_spans_of_le ?_
    rw [List.length_map, capacity, Option.getD_none]
    omega

/-- Three tasks that wait, and one of them fails. -/
def waitingBatch : Batch Nat where
  runner := .foreground
  label := "waiting"
  ceiling := none
  observed := false
  report := fun _ => none
  tasks := [⟨.value 0, [.wait 2, .wait 1]⟩, ⟨.failure (.invalid "no"), [.wait 1]⟩,
    ⟨.value 2, [.wait 2]⟩]

theorem raising_ceiling_waitingBatch :
    limit (some 0) ≤ limit (some 2) ∧ (∀ task ∈ waitingBatch.tasks, task.script.OnlyWaits)
      ∧ (waitingBatch.withCeiling (some 2)).settle.duration
        ≤ (waitingBatch.withCeiling (some 0)).settle.duration
      ∧ (waitingBatch.withCeiling (some 0)).settle.duration = 6
      ∧ (waitingBatch.withCeiling none).settle.duration = 3 := by
  have hle : limit (some 0) ≤ limit (some 2) := by decide
  have hwaits : ∀ task ∈ waitingBatch.tasks, task.script.OnlyWaits := by
    simp [waitingBatch, Script.OnlyWaits]
  obtain ⟨_, hraising, hsum, hmax, hkeeps⟩ := raising_ceiling waitingBatch
  have htime := hkeeps hwaits
  have hdurations : waitingBatch.tasks.map Timed.duration = [3, 1, 2] :=
    (htime none).durations
  rw [hdurations] at hsum hmax
  refine ⟨hle, hwaits, ?_, ?_, ?_⟩
  · rw [(htime _).duration, (htime _).duration]
    exact (hraising _ _ hle).2
  · rw [(htime _).duration, hsum 0 (by decide)]
    rfl
  · rw [(htime _).duration, hmax]
    rfl

end Batch

end DocTemplate
