/-
How deep renders of partials are nested.

A partial is a template that was there before the template that renders it was compiled, and
it holds the partials that were there before it was compiled itself.  So rendering goes down,
whatever the names by which templates call each other, and no further than there were
registrations.

* `Template.nesting` — the number of renders of partials inside of each other, at most;
* `Template.Renders` — a template holds another one as a partial;
* `Template.renderersWithin`, `Binding.runWithin` — partials and chains that are cut off at a
  depth, with something else in place of what is below.

Main facts:

* `Template.renderersWithin_of_nesting_le`, `Binding.runWithin_of_lt` — what stands below does
  not matter when the cut is deep enough;
* `Session.nesting_lt_registrations` — how deep a partial is nested, by the history;
* `Session.partials_well_founded` — what a call of a partial renders, that this is never the
  caller or something that contains it, and that a render ends.
-/
import DocTemplate.Proofs.Ancestry
import DocTemplate.Proofs.Faults
import DocTemplate.Proofs.Termination
import Mathlib.Data.List.Chain

namespace DocTemplate

open DocTemplate.Text

/-! ### Templates inside of templates -/

namespace Template

mutual

/-- The number of renders of partials inside of each other, at most, when a template is
rendered. -/
def nesting : Template → Nat
  | mk _ partials => deepest partials

/-- The number of renders inside of each other, at most, when one of some partials is
rendered. -/
def deepest : List (String × Template) → Nat
  | [] => 0
  | (_, t) :: ts => max (nesting t + 1) (deepest ts)

end

theorem nesting_eq (t : Template) : t.nesting = deepest t.partials := by
  cases t
  rw [nesting, partials]

theorem deepest_le_iff {ts : Entries Template} {bound : Nat} :
    deepest ts ≤ bound ↔ ∀ e ∈ ts, e.2.nesting < bound := by
  induction ts with
  | nil => simp [deepest]
  | cons e ts ih =>
    rw [deepest, Nat.max_le, ih, List.forall_mem_cons]
    exact Iff.rfl

/-- A template renders another one as a partial. -/
def Renders (t inner : Template) : Prop := ∃ name, t.partials.find? name = some inner

theorem Renders.nesting_lt {t inner : Template} (h : t.Renders inner) :
    inner.nesting < t.nesting := by
  obtain ⟨name, hfind⟩ := h
  rw [nesting_eq t]
  exact deepest_le_iff.mp (Nat.le_refl _) _ (Entries.mem_of_find? hfind)

/-- What is rendered inside of a template, at whatever depth, is nested less deep. -/
theorem nesting_lt_of_transGen {t inner : Template} (h : Relation.TransGen Renders t inner) :
    inner.nesting < t.nesting := by
  induction h with
  | single h => exact h.nesting_lt
  | tail _ h ih => exact Nat.lt_trans h.nesting_lt ih

/-- No more templates are rendered inside of each other than are nested. -/
theorem length_le_nesting {t : Template} {inside : List Template}
    (h : (t :: inside).IsChain Renders) : inside.length ≤ t.nesting := by
  induction inside generalizing t with
  | nil => exact Nat.zero_le _
  | cons inner inside ih =>
    obtain ⟨hrenders, hinside⟩ := List.isChain_cons_cons.mp h
    have hbelow := ih hinside
    have hlt := hrenders.nesting_lt
    rw [List.length_cons]
    omega

/-- A partial is not the template that renders it, nor does it contain this template. -/
theorem Renders.not_contains {t inner : Template} (h : t.Renders inner) :
    inner ≠ t ∧ ¬ Relation.TransGen Renders inner t := by
  have hlt := h.nesting_lt
  constructor
  · rintro rfl
    exact Nat.lt_irrefl _ hlt
  · intro hcontains
    exact Nat.lt_asymm hlt (nesting_lt_of_transGen hcontains)

/-! ### Renders that are cut off -/

/-- What templates with names render as partials when renders are nested down to some depth
only; `below` takes the place of those that would be deeper. -/
def renderersWithin (below : Template → Renderer) : (depth : Nat) → Entries Template →
    Entries Renderer
  | 0, ts => ts.map fun (name, t) => (name, below t)
  | depth + 1, ts => ts.map fun (name, t) =>
    (name, t.scene.render .task (renderersWithin below depth t.partials))

theorem renderers_eq_map (ts : Entries Template) :
    renderers ts = ts.map fun (name, t) => (name, t.renderBy .task) := by
  induction ts with
  | nil => rfl
  | cons e ts ih =>
    rw [renderers, List.map_cons, ih]

/-- When renders are not nested deeper, it does not matter what would be below. -/
theorem renderersWithin_of_nesting_le (below : Template → Renderer) {depth : Nat}
    {ts : Entries Template} (h : deepest ts ≤ depth) :
    renderersWithin below depth ts = renderers ts := by
  induction depth generalizing ts with
  | zero =>
    have hnone : ts = [] := by
      refine List.eq_nil_iff_forall_not_mem.mpr ?_
      intro e he
      exact absurd (deepest_le_iff.mp h e he) (Nat.not_lt_zero _)
    rw [hnone]
    rfl
  | succ depth ih =>
    rw [renderersWithin, renderers_eq_map]
    refine List.map_congr_left ?_
    rintro ⟨name, t⟩ ht
    have hnesting : t.nesting ≤ depth := Nat.le_of_lt_succ (deepest_le_iff.mp h _ ht)
    rw [nesting_eq] at hnesting
    refine Prod.ext rfl ?_
    show t.scene.render .task (renderersWithin below depth t.partials) = t.renderBy .task
    rw [ih hnesting]
    cases t
    rfl

end Template

/-! ### Chains that are cut off -/

namespace Binding

/-- Run the stage at a cursor, if it lies before a stop; `run` runs the stages behind it, and
those of them that its helper asks for. -/
def runStage (run : Environment → Nat → Nat → Json → Run Json) (b : Binding) (env : Environment)
    (stop cursor : Nat) (input : Json) : Run Json :=
  if cursor < stop then
    match b.stages[cursor]? with
    | none => pure input
    | some stage => do
      let context := b.contextAt env stop cursor fun runner count value =>
        if behind stop cursor + count < Word.bound then
          Ending.ofRun <| run { env with runner } (clippedStop stop (behind stop cursor) count)
            (behind stop cursor) value
        else overflow
      match ← stage.perform env context input with
      | .next value =>
        b.giveWay env stop (cursor + 1)
        run env stop (cursor + 1) value
      | .skip value stages =>
        b.giveWay env stop (cursor + 1 + stages)
        run env stop (cursor + 1 + stages) value
      | .exit value =>
        Run.log (.chainExited b.path cursor)
        return value
  else pure input

/-- Stages run inside of and behind each other down to some depth only; `below` takes the place
of those that would be deeper. -/
def runWithin (below : Environment → Nat → Nat → Json → Run Json) (b : Binding) :
    (depth : Nat) → Environment → Nat → Nat → Json → Run Json
  | 0 => below
  | depth + 1 => b.runStage (runWithin below b depth)

/-- A run of stages asks for runs that are nearer to their stop. -/
theorem runStage_eq_runFrom {run : Environment → Nat → Nat → Json → Run Json} {b : Binding}
    {stop cursor : Nat}
    (h : ∀ env stop' next, stop' - next < stop - cursor →
      run env stop' next = b.runFrom env stop' next) (env : Environment) :
    b.runStage run env stop cursor = b.runFrom env stop cursor := by
  funext input
  rw [runStage, runFrom]
  by_cases hahead : cursor < stop
  · have hremaining (runner : Runner) (count : Nat) :
        run { env with runner } (clippedStop stop (behind stop cursor) count) (behind stop cursor)
          = b.runFrom { env with runner } (clippedStop stop (behind stop cursor) count)
            (behind stop cursor) := by
      refine h _ _ _ ?_
      rw [clippedStop, behind]
      omega
    have hbehind (stages : Nat) : run env stop (cursor + 1 + stages)
        = b.runFrom env stop (cursor + 1 + stages) := h _ _ _ (by omega)
    have hnext : run env stop (cursor + 1) = b.runFrom env stop (cursor + 1) := hbehind 0
    rw [if_pos hahead, dif_pos hahead]
    cases b.stages[cursor]? with
    | none => rfl
    | some stage =>
      simp only [hremaining]
      refine bind_congr ?_
      intro flow
      cases flow with
      | next value => simp only [hnext]
      | skip value stages => simp only [hbehind]
      | exit value => rfl
  · rw [if_neg hahead, dif_neg hahead]

/-- With a depth above the number of stages it does not matter what would be below. -/
theorem runWithin_of_lt (below : Environment → Nat → Nat → Json → Run Json) (b : Binding)
    {depth stop cursor : Nat} (h : stop - cursor < depth) (env : Environment) :
    b.runWithin below depth env stop cursor = b.runFrom env stop cursor := by
  induction depth generalizing env stop cursor with
  | zero => exact absurd h (Nat.not_lt_zero _)
  | succ depth ih =>
    refine runStage_eq_runFrom ?_ env
    intro env stop' next hnearer
    exact ih (by omega) env

end Binding

/-! ### Registrations -/

namespace Session

variable {past : List Operation}

/-- The partials of a template had been registered before it was compiled. -/
theorem nesting_template_le_of_registrations (a : Lineage) {bound : Nat}
    (h : ∀ e ∈ registrations a.before, e.2.nesting < bound) : a.template.nesting ≤ bound := by
  rw [Template.nesting_eq, a.partials_template, Template.deepest_le_iff]
  intro e he
  exact h e (mem_registrations_of_mem_partials he)

/-- A partial is nested less deep than there are registrations, its own among them. -/
theorem nesting_lt_registrations (past : List Operation) :
    ∀ e ∈ registrations past, e.2.nesting < (registrations past).length := by
  induction hlength : past.length using Nat.strongRecOn generalizing past with
  | ind length ih =>
    rintro ⟨name, t⟩ ht
    obtain ⟨source, earlier, hsuffix, hfind⟩ := exists_of_mem_registrations ht
    have hlineage := hfind
    rw [find?_after] at hlineage
    obtain ⟨a, ha, rfl⟩ := Option.map_eq_some_iff.mp hlineage
    obtain ⟨made, hbefore⟩ := (within_of_lineage? ha).compiled
    have hshorter : a.before.length < length := by
      have hle := hbefore.length_le
      have hlt := hsuffix.length_le
      simp only [List.length_cons] at hle hlt
      omega
    have hnesting : a.template.nesting ≤ (registrations a.before).length :=
      nesting_template_le_of_registrations a (ih _ hshorter a.before rfl)
    have hearlier : (registrations a.before).length ≤ (registrations earlier).length :=
      (registrations_suffix ((List.suffix_cons _ _).trans hbefore)).length_le
    have hregistered : (registrations earlier).length + 1 ≤ (registrations past).length := by
      have hle := (registrations_suffix hsuffix).length_le
      rw [registrations, hfind] at hle
      exact hle
    exact Nat.lt_of_le_of_lt (Nat.le_trans hnesting hearlier) hregistered

end Session

/-! ### Calls of partials -/

namespace Template

/-- What a call of a partial gives when these are the partials that can be rendered. -/
def callPartial (partials : Entries Template) (part : String) (input : Json) : Timed Outcome :=
  if input.isNull then pure (.flow (.next .null))
  else match partials.find? part with
    | none => pure (.failure (.invalid ("unknown partial \"" ++ part ++ "\"")))
    | some inner => Outcome.ofResult <$> (Flow.next <$> inner.renderBy .task input).timed

theorem renderPartial_eq {ctx : HelperContext} {partials : Entries Template} {part : String}
    (h : ctx.partial? part = (partials.find? part).map fun inner data => inner.renderBy .task data)
    (args : List String) (input : Json) :
    Helper.renderPartial ctx (part :: args) input = callPartial partials part input := by
  rw [Helper.renderPartial, Helper.ofRun, callPartial]
  by_cases hnull : input.isNull
  · rw [if_pos hnull, if_pos hnull]
    rfl
  · rw [if_neg hnull, if_neg hnull]
    cases hfind : partials.find? part with
    | none =>
      rw [hfind] at h
      simp only [h]
      rfl
    | some inner =>
      rw [hfind] at h
      simp only [h, Option.map_some, bind_pure_comp]

/-- Renders of partials are nested in a render of a template down to some depth only: what is put
in place of deeper ones makes no difference. -/
structure EndsWithin (t : Template) (depth : Nat) : Prop where
  render : ∀ (below : Template → Renderer) (runner : Runner) (data : Json),
    t.scene.render runner (renderersWithin below depth t.partials) data = t.renderBy runner data
  settle : ∀ (below : Template → Renderer) (data : Json),
    t.scene.settle (renderersWithin below depth t.partials) data = t.settle data

theorem endsWithin_of_nesting_le {t : Template} {depth : Nat} (h : t.nesting ≤ depth) :
    t.EndsWithin depth := by
  rw [nesting_eq] at h
  constructor
  · intro below runner data
    rw [renderersWithin_of_nesting_le below h]
    cases t
    rfl
  · intro below data
    rw [renderersWithin_of_nesting_le below h]
    cases t
    rfl

end Template

namespace Session

variable {past : List Operation}

/-- Rendering partials is well-founded.  A call of a partial in a template renders what was
registered last under the name before the template was compiled: a template of an earlier
session, which neither is the caller nor contains it.  Renders of partials are nested no deeper
than there were registrations before the template was compiled, no chain runs more stages inside
of and behind each other than it has, and when the helpers end, so does every render. -/
theorem partials_well_founded {name : String} {t : Template}
    (h : (after past).templates.find? name = some t) :
    ∃ a made, .compile made a.document a.options :: a.before <:+ past
      ∧ lineage? past name = some a
      ∧ (∀ runner b stop cursor run part args input,
          Helper.renderPartial (Binding.contextAt { t.environment with runner } b stop cursor run)
              (part :: args) input
            = Template.callPartial (registrations a.before) part input)
      ∧ (∀ part inner, (registrations a.before).find? part = some inner →
          (∃ source earlier, .registerPartial source part :: earlier <:+ a.before
              ∧ (after earlier).templates.find? source = some inner)
            ∧ inner ≠ t ∧ ¬ Relation.TransGen Template.Renders inner t)
      ∧ (∀ inside, (t :: inside).IsChain Template.Renders →
          inside.length ≤ (registrations a.before).length)
      ∧ t.EndsWithin (registrations a.before).length
      ∧ ((∀ op ∈ past, op.Terminates) → t.Ends)
      ∧ ∀ below (b : Binding) depth stop cursor, stop - cursor < depth → ∀ env,
          b.runWithin below depth env stop cursor = b.runFrom env stop cursor := by
  have hends (hpast : ∀ op ∈ past, op.Terminates) : t.Ends :=
    Template.ends_of_terminates (terminates_after hpast h)
  rw [find?_after] at h
  obtain ⟨a, ha, rfl⟩ := Option.map_eq_some_iff.mp h
  obtain ⟨made, hbefore⟩ := (within_of_lineage? ha).compiled
  have hpartials := a.follows_template.partials
  have hnesting : a.template.nesting ≤ (registrations a.before).length :=
    nesting_template_le_of_registrations a (nesting_lt_registrations a.before)
  refine ⟨a, made, hbefore, ha, ?_, ?_, ?_, Template.endsWithin_of_nesting_le hnesting, hends, ?_⟩
  · intro runner b stop cursor run part args input
    refine Template.renderPartial_eq ?_ args input
    rw [← hpartials part]
    exact Template.find?_renderers a.template.partials part
  · intro part inner hfind
    have hrenders : a.template.Renders inner := ⟨part, (hpartials part).trans hfind⟩
    exact ⟨exists_of_mem_registrations (Entries.mem_of_find? hfind), hrenders.not_contains⟩
  · intro inside hinside
    exact Nat.le_trans (Template.length_le_nesting hinside) hnesting
  · intro below b depth stop cursor hdepth env
    exact Binding.runWithin_of_lt below b hdepth env

/-- A document with one place, which is rendered by the partial of a name. -/
def nextBy (part : String) : Json :=
  .object [("next", .string ("\x60next | partial:" ++ part ++ "\x60"))]

/-- Two templates call each other, and one of them has been compiled again since. -/
def pingPong : List Operation :=
  [.compile "ping" (nextBy "pong") .null, .registerPartial "pong" "pong",
    .compile "pong" (nextBy "ping") .null, .registerPartial "ping" "ping",
    .compile "ping" (nextBy "pong") .null]

/-- The later ping renders the pong that was there before it, and this one the earlier ping. -/
theorem partials_well_founded_pingPong :
    ∃ ping, (after pingPong).templates.find? "ping" = some ping ∧ ping.EndsWithin 2 ∧ ping.Ends
      ∧ ∃ pong, (registrations pingPong.tail).find? "pong" = some pong
        ∧ pong ≠ ping ∧ ¬ Relation.TransGen Template.Renders pong ping := by
  have hlineage : lineage? pingPong "ping"
      = some ⟨nextBy "pong", .null, pingPong.tail, []⟩ := rfl
  obtain ⟨ping, hping⟩ : ∃ ping, (after pingPong).templates.find? "ping" = some ping := ⟨_, rfl⟩
  obtain ⟨pong, hpong⟩ : ∃ pong, (registrations pingPong.tail).find? "pong" = some pong := ⟨_, rfl⟩
  have hterminates : ∀ op ∈ pingPong, op.Terminates := by
    simp [pingPong, Operation.Terminates]
  obtain ⟨a, made, _, ha, _, hbelow, _, hwithin, hends, _⟩ := partials_well_founded hping
  rw [hlineage] at ha
  obtain rfl := Option.some.inj ha
  exact ⟨ping, hping, hwithin, hends hterminates, pong, hpong, (hbelow "pong" pong hpong).2⟩

end Session

end DocTemplate
