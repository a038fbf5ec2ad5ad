/-
The stages that a run comes to.

A run of the stages of a range is taken apart into the stages that it performs, one after the
other.  A helper among them may run further stages, and the helpers among those again; the
range of such a run and what it may do follow from the place of the helper alone, whatever the
helpers answer.

* `Binding.Performs` — what a run consists of; only stages that are there are performed;
* `Binding.exists_performs` — every run consists of something;
* `Binding.Performs.bounded` — the places grow, and stay inside the range;
* `Binding.Stretch.Opens` — the runs that the helpers of a run can start;
* `Binding.runRange_stays_inside` — a run of a range, and all runs inside it.
-/
import DocTemplate.Proofs.Faults
import DocTemplate.Proofs.Remaining
import DocTemplate.Proofs.SequencePoint
import Mathlib.Logic.Relation

namespace DocTemplate

open DocTemplate.Text

/-! ### What a `map` runs -/

/-- A `map` runs nothing but the stages in front of its boundary. -/
theorem Helper.map_congr {ctx : HelperContext} {runs : Runner → Nat → Json → Timed (Ending Json)}
    (h : ∀ value, runs .task ((boundary? ctx.remaining).getD ctx.remaining.length) value
      = ctx.runRemaining .task ((boundary? ctx.remaining).getD ctx.remaining.length) value)
    (args : List String) (input : Json) :
    map { ctx with runRemaining := runs } args input = map ctx args input := by
  have helements : mapElements { ctx with runRemaining := runs }
        ((boundary? ctx.remaining).getD ctx.remaining.length) input
      = mapElements ctx ((boundary? ctx.remaining).getD ctx.remaining.length) input := by
    refine mapElements_congr ?_ ?_ ?_ ?_ h input
    all_goals rfl
  have hrun : mapRun { ctx with runRemaining := runs } input = mapRun ctx input := by
    rw [mapRun, mapRun, helements]
  rw [map_eq_ofRun]
  show Outcome.ofResult <$> (mapRun _ input).timed = Outcome.ofResult <$> (mapRun ctx input).timed
  rw [hrun]

namespace Binding

variable {env : Environment} {b : Binding} {stop cursor : Nat} {input : Json}

/-! ### One run -/

/-- A stage that a run comes to, with what it is performed on. -/
structure Visit where
  cursor : Nat
  stage : Stage
  input : Json

/-- Perform the stage of a visit, in the context of its place. -/
def Visit.perform (env : Environment) (b : Binding) (stop : Nat) (v : Visit) : Run Flow :=
  v.stage.perform env (b.contextAt env stop v.cursor (b.runRemaining env stop v.cursor)) v.input

/-- A run from a cursor on and before a stop performs some stages, one after the other, each on
what the one before has given.  A run is over at its stop, or with a stage that ends the chain
or fails.  There is no way for it to go on where there is no stage. -/
inductive Performs (env : Environment) (b : Binding) (stop : Nat) :
    Nat → Json → List Visit → Run Json → Prop where
  | ended {cursor : Nat} {input : Json} (h : stop ≤ cursor) :
      Performs env b stop cursor input [] (pure input)
  | onward {cursor next : Nat} {input value : Json} {stage : Stage} {flow : Flow}
      {visits : List Visit} {run : Run Json} (hahead : cursor < stop)
      (hstage : b.stages[cursor]? = some stage)
      (hflow : (Visit.perform env b stop ⟨cursor, stage, input⟩).result = .ok flow)
      (hnext : flow.landing? cursor = some (next, value))
      (h : Performs env b stop next value visits run) :
      Performs env b stop cursor input (⟨cursor, stage, input⟩ :: visits)
        (Visit.perform env b stop ⟨cursor, stage, input⟩ >>= fun _ =>
          b.giveWay env stop next >>= fun _ => run)
  | exit {cursor : Nat} {input value : Json} {stage : Stage} (hahead : cursor < stop)
      (hstage : b.stages[cursor]? = some stage)
      (hflow : (Visit.perform env b stop ⟨cursor, stage, input⟩).result = .ok (.exit value)) :
      Performs env b stop cursor input [⟨cursor, stage, input⟩]
        (Visit.perform env b stop ⟨cursor, stage, input⟩ >>= fun _ =>
          Run.log (.chainExited b.path cursor) >>= fun _ => pure value)
  | failed {cursor : Nat} {input : Json} {stage : Stage} {e : Error} (hahead : cursor < stop)
      (hstage : b.stages[cursor]? = some stage)
      (hfails : (Visit.perform env b stop ⟨cursor, stage, input⟩).result = .error e) :
      Performs env b stop cursor input [⟨cursor, stage, input⟩]
        (Visit.perform env b stop ⟨cursor, stage, input⟩ >>= fun _ => throw e)

theorem lt_of_landing {flow : Flow} {next : Nat} {value : Json}
    (h : flow.landing? cursor = some (next, value)) : cursor < next := by
  cases flow with
  | next v =>
    obtain ⟨rfl, -⟩ := Prod.mk.inj (Option.some.inj h)
    omega
  | skip v count =>
    obtain ⟨rfl, -⟩ := Prod.mk.inj (Option.some.inj h)
    omega
  | exit v => simp [Flow.landing?] at h

/-- Behind a stage a run gives way and goes on at the landing. -/
theorem continueFrom_of_landing {flow : Flow} {next : Nat} {value : Json}
    (h : flow.landing? cursor = some (next, value)) :
    b.continueFrom env stop cursor flow
      = b.giveWay env stop next >>= fun _ => b.runFrom env stop next value := by
  cases flow with
  | next v =>
    obtain ⟨rfl, rfl⟩ := Prod.mk.inj (Option.some.inj h)
    rfl
  | skip v count =>
    obtain ⟨rfl, rfl⟩ := Prod.mk.inj (Option.some.inj h)
    rfl
  | exit v => simp [Flow.landing?] at h

/-- A run goes on as its stage answers. -/
theorem runFrom_of_ok {stage : Stage} {flow : Flow} (hahead : cursor < stop)
    (hstage : b.stages[cursor]? = some stage)
    (hflow : (Visit.perform env b stop ⟨cursor, stage, input⟩).result = .ok flow) :
    b.runFrom env stop cursor input
      = Visit.perform env b stop ⟨cursor, stage, input⟩ >>= fun _ =>
          b.continueFrom env stop cursor flow := by
  rw [runFrom_eq hahead hstage]
  refine Run.bind_congr_of_ok ?_
  intro answer hanswer
  rw [Except.ok.inj (hanswer.symm.trans hflow)]

theorem runFrom_of_error {stage : Stage} {e : Error} (hahead : cursor < stop)
    (hstage : b.stages[cursor]? = some stage)
    (hfails : (Visit.perform env b stop ⟨cursor, stage, input⟩).result = .error e) :
    b.runFrom env stop cursor input
      = Visit.perform env b stop ⟨cursor, stage, input⟩ >>= fun _ => throw e := by
  rw [runFrom_eq hahead hstage]
  refine Run.bind_congr_of_ok ?_
  intro answer hanswer
  exact absurd (hanswer.symm.trans hfails) (by simp)

/-- Every run performs stages up to its end, as long as its stop does not lie behind the last
stage. -/
theorem exists_performs (hstop : stop ≤ b.stages.length) (env : Environment) (cursor : Nat)
    (input : Json) :
    ∃ visits, Performs env b stop cursor input visits (b.runFrom env stop cursor input) := by
  -- Whatever a stage answers, the landing is nearer to the stop.
  induction hn : stop - cursor using Nat.strongRecOn generalizing cursor input with
  | ind n ih =>
    by_cases hcursor : stop ≤ cursor
    · rw [runFrom_of_le hcursor]
      exact ⟨[], .ended hcursor⟩
    · have hahead : cursor < stop := Nat.lt_of_not_le hcursor
      obtain ⟨stage, hstage⟩ : ∃ stage, b.stages[cursor]? = some stage :=
        ⟨_, List.getElem?_eq_getElem (Nat.lt_of_lt_of_le hahead hstop)⟩
      cases hresult : (Visit.perform env b stop ⟨cursor, stage, input⟩).result with
      | error e =>
        rw [runFrom_of_error hahead hstage hresult]
        exact ⟨_, .failed hahead hstage hresult⟩
      | ok flow =>
        rw [runFrom_of_ok hahead hstage hresult]
        cases hlanding : flow.landing? cursor with
        | none =>
          obtain ⟨value, rfl⟩ : ∃ value, flow = .exit value := by
            cases flow with
            | next value => simp [Flow.landing?] at hlanding
            | skip value count => simp [Flow.landing?] at hlanding
            | exit value => exact ⟨value, rfl⟩
          exact ⟨_, .exit hahead hstage hresult⟩
        | some landing =>
          obtain ⟨next, value⟩ := landing
          have hnext := lt_of_landing hlanding
          obtain ⟨visits, hvisits⟩ := ih (stop - next) (by omega) next value rfl
          rw [continueFrom_of_landing hlanding]
          exact ⟨_, .onward hahead hstage hresult hlanding hvisits⟩

/-- Visits of stages that are there, inside a range and in ascending order. -/
structure Bounded (b : Binding) (first stop : Nat) (visits : List Visit) : Prop where
  inside : ∀ v ∈ visits, first ≤ v.cursor ∧ v.cursor < stop
  present : ∀ v ∈ visits, b.stages[v.cursor]? = some v.stage
  /-- Ascending strictly, places do not repeat. -/
  ascending : visits.Pairwise (·.cursor < ·.cursor)
  steps : visits.length ≤ stop - first

theorem Bounded.single {stage : Stage} (hahead : cursor < stop)
    (hstage : b.stages[cursor]? = some stage) :
    b.Bounded cursor stop [⟨cursor, stage, input⟩] := by
  constructor
  · simpa using hahead
  · simpa using hstage
  · simp
  · simp only [List.length_singleton]
    omega

theorem Bounded.cons {next : Nat} {stage : Stage} {visits : List Visit} (hahead : cursor < stop)
    (hstage : b.stages[cursor]? = some stage) (hnext : cursor < next)
    (h : b.Bounded next stop visits) :
    b.Bounded cursor stop (⟨cursor, stage, input⟩ :: visits) := by
  constructor
  · intro v hv
    rcases List.mem_cons.mp hv with rfl | hv
    · exact ⟨Nat.le_refl _, hahead⟩
    · obtain ⟨hfirst, hlast⟩ := h.inside v hv
      exact ⟨by omega, hlast⟩
  · intro v hv
    rcases List.mem_cons.mp hv with rfl | hv
    · exact hstage
    · exact h.present v hv
  · refine List.pairwise_cons.mpr ⟨?_, h.ascending⟩
    intro v hv
    exact Nat.lt_of_lt_of_le hnext (h.inside v hv).1
  · -- The stages that are passed over count as well.
    have hsteps := h.steps
    rw [List.length_cons]
    by_cases hempty : visits = []
    · rw [hempty, List.length_nil]
      omega
    · have hpos := List.length_pos_iff.mpr hempty
      omega

theorem Performs.bounded {visits : List Visit} {run : Run Json}
    (h : Performs env b stop cursor input visits run) : b.Bounded cursor stop visits := by
  induction h with
  | ended h => exact ⟨by simp, by simp, List.Pairwise.nil, Nat.zero_le _⟩
  | onward hahead hstage hflow hnext h ih => exact ih.cons hahead hstage (lt_of_landing hnext)
  | exit hahead hstage hflow => exact .single hahead hstage
  | failed hahead hstage hfails => exact .single hahead hstage

/-- What a run goes on to do at a place. -/
def resume (env : Environment) (b : Binding) (stop next : Nat) (value : Json) : Run Json := do
  b.giveWay env stop next
  b.runFrom env stop next value

/-- A landing behind all words is behind the stop, as is the greatest word. -/
theorem resume_min_greatest (hstop : stop < Word.bound) (env : Environment) (next : Nat)
    (value : Json) :
    b.resume env stop (min next Word.greatest) value = b.resume env stop next value := by
  by_cases hword : next ≤ Word.greatest
  · rw [Nat.min_eq_left hword]
  · have hbehind (place : Nat) (h : stop ≤ place) : b.resume env stop place value
        = (pure () : Run Unit) >>= fun _ => pure value := by
      rw [resume, runFrom_of_le h, giveWay, if_neg fun hahead => Nat.not_lt.mpr h hahead.1]
    have hgreatest : stop ≤ Word.greatest := Nat.le_pred_of_lt hstop
    rw [hbehind _ (Nat.le_min.mpr ⟨by omega, hgreatest⟩), hbehind next (by omega)]

/-! ### Runs inside runs -/

/-- Some stages of a binding, for somebody to run on an input. -/
structure Stretch where
  runner : Runner
  first : Nat
  stop : Nat
  input : Json

namespace Stretch

/-- What the chain finds around itself while somebody runs a stretch. -/
def environment (env : Environment) (s : Stretch) : Environment := { env with runner := s.runner }

/-- Run a stretch. -/
def run (env : Environment) (b : Binding) (s : Stretch) : Run Json :=
  b.runFrom (s.environment env) s.stop s.first s.input

/-- What a helper at a place of a stretch sees. -/
def contextAt (env : Environment) (b : Binding) (s : Stretch) (cursor : Nat) : HelperContext :=
  b.contextAt (s.environment env) s.stop cursor (b.runRemaining (s.environment env) s.stop cursor)

/-- Let somebody run a stretch. -/
def task (env : Environment) (b : Binding) (s : Stretch) : Timed (Ending Json) :=
  Ending.ofRun (s.run env b)

/-- The stretch of the first of the stages behind a place, as many as a count says. -/
def behind (s : Stretch) (cursor : Nat) (runner : Runner) (count : Nat) (value : Json) : Stretch :=
  ⟨runner, Binding.behind s.stop cursor,
    clippedStop s.stop (Binding.behind s.stop cursor) count, value⟩

/-- A helper of one stretch may run another, which consists of some of the stages behind it. -/
inductive Opens (env : Environment) (b : Binding) : Stretch → Stretch → Prop where
  | behind {s : Stretch} {visits : List Visit} {run : Run Json} {v : Visit}
      (h : Performs (s.environment env) b s.stop s.first s.input visits run) (hv : v ∈ visits)
      (runner : Runner) (count : Nat) (value : Json) :
      Opens env b s (s.behind v.cursor runner count value)

/-- A visit inside a stretch.  What the helper there is shown, and what it can have run, lies
behind it and inside the stretch. -/
structure Admits (env : Environment) (b : Binding) (s : Stretch) (v : Visit) : Prop where
  first_le : s.first ≤ v.cursor
  lt_stop : v.cursor < s.stop
  stage : b.stages[v.cursor]? = some v.stage
  remaining : (s.contextAt env b v.cursor).remaining = b.slice (v.cursor + 1) s.stop
  length_remaining : v.cursor + 1 + (s.contextAt env b v.cursor).remaining.length = s.stop
  /-- A helper may have some of the remaining stages run, which is the run of a stretch, unless
  there is a panic before any stage is performed. -/
  runs : ∀ runner count value,
    (v.cursor + 1 + count < Word.bound →
        (s.contextAt env b v.cursor).runRemaining runner count value
          = (s.behind v.cursor runner count value).task env b)
      ∧ (Word.bound ≤ v.cursor + 1 + count →
        (s.contextAt env b v.cursor).runRemaining runner count value = overflow)
      ∧ v.cursor < (s.behind v.cursor runner count value).first
      ∧ (s.behind v.cursor runner count value).stop ≤ s.stop
  /-- Among all that it may have run, `map` has the stretches up to the first boundary run and
  nothing else. -/
  elements :
    let ctx := s.contextAt env b v.cursor
    let count := (Helper.boundary? ctx.remaining).getD ctx.remaining.length
    (b.stages.length < Word.bound → ∀ value,
        ctx.runRemaining .task count value = (s.behind v.cursor .task count value).task env b)
      ∧ ∀ runs : Runner → Nat → Json → Timed (Ending Json),
        (∀ value, runs .task count value = ctx.runRemaining .task count value) →
          ∀ args input, Helper.map { ctx with runRemaining := runs } args input
            = Helper.map ctx args input

/-- The run of a stretch performs stages, and whatever it performs is inside. -/
structure Sound (env : Environment) (b : Binding) (s : Stretch) : Prop where
  stop_le : s.stop ≤ b.stages.length
  empty : s.stop ≤ s.first → s.run env b = pure s.input
  performs : ∃ visits,
    Performs (s.environment env) b s.stop s.first s.input visits (s.run env b)
  bounded : ∀ visits run, Performs (s.environment env) b s.stop s.first s.input visits run →
    b.Bounded s.first s.stop visits ∧ ∀ v ∈ visits, s.Admits env b v
  /-- A cursor that stays at the greatest word goes on as one that grows without bounds. -/
  saturates : b.stages.length < Word.bound → ∀ next value,
    b.resume (s.environment env) s.stop (min next Word.greatest) value
      = b.resume (s.environment env) s.stop next value

theorem admits {s : Stretch} {v : Visit} (env : Environment) (hstop : s.stop ≤ b.stages.length)
    (hfirst : s.first ≤ v.cursor) (hahead : v.cursor < s.stop)
    (hstage : b.stages[v.cursor]? = some v.stage) : s.Admits env b v := by
  have hbehind : Binding.behind s.stop v.cursor = v.cursor + 1 := Nat.min_eq_left hahead
  have hremaining : (s.contextAt env b v.cursor).remaining = b.slice (v.cursor + 1) s.stop := by
    rw [← hbehind]
    rfl
  have hlength : v.cursor + 1 + (s.contextAt env b v.cursor).remaining.length = s.stop := by
    rw [hremaining, length_slice b _ _ hstop]
    omega
  have hruns (runner : Runner) (count : Nat) (value : Json)
      (hsum : v.cursor + 1 + count < Word.bound) :
      (s.contextAt env b v.cursor).runRemaining runner count value
        = (s.behind v.cursor runner count value).task env b :=
    runRemaining_of_lt (hbehind ▸ hsum) _ b runner value
  refine ⟨hfirst, hahead, hstage, hremaining, hlength, ?_, ?_⟩
  · intro runner count value
    refine ⟨hruns runner count value, ?_, ?_, clippedStop_le _ _ _⟩
    · intro hsum
      exact runRemaining_of_le (hbehind ▸ hsum) _ b runner value
    · show v.cursor < Binding.behind s.stop v.cursor
      rw [hbehind]
      exact Nat.lt_succ_self _
  · intro ctx count
    refine ⟨?_, fun runs hsame args input => Helper.map_congr hsame args input⟩
    intro hwords value
    have hcount : count ≤ (s.contextAt env b v.cursor).remaining.length :=
      Helper.getD_boundary?_le _
    exact hruns .task count value (by omega)

theorem sound {s : Stretch} (env : Environment) (hstop : s.stop ≤ b.stages.length) :
    s.Sound env b := by
  refine ⟨hstop, ?_, exists_performs hstop _ _ _, ?_, ?_⟩
  · intro hempty
    exact runFrom_of_le hempty _
  · intro visits run hperforms
    have hbounded := hperforms.bounded
    refine ⟨hbounded, ?_⟩
    intro v hv
    obtain ⟨hfirst, hahead⟩ := hbounded.inside v hv
    exact admits env hstop hfirst hahead (hbounded.present v hv)
  · intro hwords next value
    exact resume_min_greatest (Nat.lt_of_le_of_lt hstop hwords) _ next value

/-- A stretch inside another begins behind a stage of it. -/
theorem Opens.inside {s t : Stretch} (h : Opens env b s t) :
    s.first < t.first ∧ t.stop ≤ s.stop ∧ t.stop - t.first < s.stop - s.first := by
  cases h with
  | @behind visits run v hperforms hv runner count value =>
    obtain ⟨hfirst, hahead⟩ := hperforms.bounded.inside v hv
    have hbegins : (s.behind v.cursor runner count value).first = v.cursor + 1 :=
      Nat.min_eq_left hahead
    have hends : (s.behind v.cursor runner count value).stop ≤ s.stop := clippedStop_le _ _ _
    omega

/-- Stretches inside stretches become shorter. -/
theorem opens_wellFounded (env : Environment) (b : Binding) :
    WellFounded fun t s => Opens env b s t :=
  Subrelation.wf (fun h => h.inside.2.2) (measure fun s : Stretch => s.stop - s.first).wf

end Stretch

/-- Runs stay inside their ranges, and end.  A run of a range performs stages that are there,
in ascending order and inside the range, as many as there are in it at the most, and nothing
where the range is empty.  The same holds of every run that a helper of it can start, however
deep; such a run begins behind its helper, ends inside the range, and covers less of it. -/
theorem runRange_stays_inside (env : Environment) (b : Binding) (first last : Nat)
    (input : Json) :
    let top : Stretch := ⟨env.runner, first, min last b.stages.length, input⟩
    b.runRange env first last input = top.run env b
      ∧ (last ≤ first → b.runRange env first last input = pure input)
      ∧ (∀ s, Relation.ReflTransGen (Stretch.Opens env b) top s →
          s.Sound env b ∧ first ≤ s.first ∧ s.stop ≤ min last b.stages.length)
      ∧ (∀ s t, Stretch.Opens env b s t →
          s.first < t.first ∧ t.stop ≤ s.stop ∧ t.stop - t.first < s.stop - s.first)
      ∧ WellFounded fun t s => Stretch.Opens env b s t := by
  intro top
  refine ⟨rfl, ?_, ?_, fun s t hopens => hopens.inside, Stretch.opens_wellFounded env b⟩
  · intro hempty
    exact runFrom_of_le (Nat.le_trans (Nat.min_le_left _ _) hempty) input
  · intro s hreach
    have hinside : first ≤ s.first ∧ s.stop ≤ min last b.stages.length := by
      induction hreach with
      | refl => exact ⟨Nat.le_refl _, Nat.le_refl _⟩
      | tail _ hopens ih =>
        obtain ⟨hfirst, hstop, -⟩ := hopens.inside
        omega
    exact ⟨Stretch.sound env (by omega), hinside⟩

/-- The inner `map` of a chain ends a run that stops in front of its boundary. -/
theorem performs_nestedChain :
    Performs steeredEnvironment nestedChain 5 1 (.array [.object [("n", .null)]])
      [⟨1, .call "map" [], .array [.object [("n", .null)]]⟩]
      (Visit.perform steeredEnvironment nestedChain 5
          ⟨1, .call "map" [], .array [.object [("n", .null)]]⟩ >>= fun _ =>
        Run.log (.chainExited nestedChain.path 1) >>= fun _ => pure (.array [.null])) := by
  refine .exit (by decide) rfl ?_
  cbv

/-- Nothing is run on an inverted range; a task that is to run two stages for the `map` performs
two at most, and they lie behind the `map`. -/
theorem runRange_stays_inside_nestedChain :
    nestedChain.runRange steeredEnvironment 5 2 .null = pure .null
      ∧ ∃ visits, Performs (Stretch.environment steeredEnvironment ⟨.task, 2, 4, .null⟩)
          nestedChain 4 2 .null visits
          (Stretch.run steeredEnvironment nestedChain ⟨.task, 2, 4, .null⟩)
        ∧ visits.length ≤ 2 ∧ ∀ v ∈ visits, 1 < v.cursor ∧ v.cursor < 4 := by
  have hopens : Stretch.Opens steeredEnvironment nestedChain
      ⟨.foreground, 1, min 5 nestedChain.stages.length, .array [.object [("n", .null)]]⟩
      ⟨.task, 2, 4, .null⟩ :=
    @Stretch.Opens.behind steeredEnvironment nestedChain
      ⟨.foreground, 1, 5, .array [.object [("n", .null)]]⟩ _ _ _ performs_nestedChain
      List.mem_cons_self .task 2 .null
  have hempty := (runRange_stays_inside steeredEnvironment nestedChain 5 2 .null).2.1
  obtain ⟨hsound, -, -⟩ := (runRange_stays_inside steeredEnvironment nestedChain 1 5
    (.array [.object [("n", .null)]])).2.2.1 _ (.single hopens)
  obtain ⟨visits, hvisits⟩ := hsound.performs
  obtain ⟨hbounded, -⟩ := hsound.bounded visits _ hvisits
  exact ⟨hempty (by decide), visits, hvisits, hbounded.steps, hbounded.inside⟩

end Binding

end DocTemplate
