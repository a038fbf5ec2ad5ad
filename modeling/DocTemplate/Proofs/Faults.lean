/-
Where the failures of a render come from.

A stage may fail by itself: there is no helper of its name, or the helper panics, or it
answers with a failure of its own.  A `map` fails as well when a stage fails that it runs for
an element, and `partial` when one fails in the partial; both hand on what they get.
`Template.Fails` goes from a run of stages down to the innermost stage that fails, and
`Fault.error` is the error of this stage.

* `Template.exists_failsIn` — a binding fails with the error of some fault, by induction on
  the partials and on what is left of a chain;
* `Template.Fails.exists_error` — where there is a fault, a failure comes out;
* `Template.faults_reach_caller` — both for renders, and for every binding of its own;
* `Session.failures_name_stages` — whatever is done in a session, a failure names a stage.
-/
import DocTemplate.Catalog.Failures
import DocTemplate.Proofs.Ancestry
import DocTemplate.Proofs.Evaluation
import DocTemplate.Proofs.Substitution

namespace DocTemplate

open DocTemplate.Text

/-! ### Faults -/

/-- Why a stage has failed by itself. -/
inductive Cause where
  /-- There is no helper of the name. -/
  | unresolved
  | panic (payload : Option String)
  | failure (error : Error)

/-- A stage that has failed by itself, in a binding on a path. -/
structure Fault where
  path : Path
  helper : String
  cause : Cause

/-- The error of a fault: one that is located already stays as it is. -/
def Fault.error (f : Fault) : Error :=
  match f.cause with
  | .unresolved => .unknownHelper f.helper f.path.display
  | .panic payload => .panicked f.path.display (Error.payloadText payload)
  | .failure e => if e.isLocated then e else .helperFailed f.helper f.path.display e.message

theorem Fault.isLocated_error (f : Fault) : f.error.isLocated = true := by
  obtain ⟨path, helper, cause⟩ := f
  cases cause with
  | unresolved => rfl
  | panic payload => rfl
  | failure e => exact Error.isLocated_locate helper path e

example : Fault.error ⟨[.name "v"], "fail", .failure (.invalid "boom")⟩
    = .helperFailed "fail" "v" "validation error: boom" := by
  rfl

/-- Further stages leave the error of a fault as it is. -/
theorem Fault.locate_error (f : Fault) (helper : String) (path : Path) :
    f.error.locate helper path = f.error :=
  if_pos f.isLocated_error

/-! ### Failing chains -/

/-- Where a chain goes on behind the stage at a cursor, and with which value. -/
def Flow.landing? (cursor : Nat) : Flow → Option (Nat × Json)
  | .next value => some (cursor + 1, value)
  | .skip value stages => some (cursor + 1 + stages, value)
  | .exit _ => none

/-- The values that `map` runs stages for. -/
def Json.elements? : Json → Option (List Json)
  | .array items => some items
  | .object members => some (members.map Prod.snd)
  | _ => none

namespace Binding

/-- The value that the first stage of a binding gives, unless it is a call. -/
def initial? (b : Binding) (data : Json) : Option Json :=
  match b.stages.head? with
  | some (.literal value) => some value
  | some (.data source) => some (source.resolve data)
  | _ => none

/-- The stage at a cursor calls a helper, in a run up to a stop. -/
structure CallsAt (b : Binding) (stop cursor : Nat) (name : String) (args : List String) :
    Prop where
  ahead : cursor < stop
  stage : b.stages[cursor]? = some (.call name args)

/-- The number of stages that the `map` at a cursor runs for every element, up to its
boundary. -/
def elementCount (b : Binding) (stop cursor : Nat) : Nat :=
  let remaining := b.slice (behind stop cursor) stop
  (Helper.boundary? remaining).getD remaining.length

/-- The stop of the runs for the elements of a collection, in front of the boundary of the
`map` at a cursor. -/
def elementStop (b : Binding) (stop cursor : Nat) : Nat :=
  clippedStop stop (behind stop cursor) (b.elementCount stop cursor)

/-- The place behind a `map` and the number of stages that it runs add up to a word, as they
do in every chain that has fewer stages than there are words. -/
def RunsElements (b : Binding) (stop cursor : Nat) : Prop :=
  behind stop cursor + b.elementCount stop cursor < Word.bound

end Binding

namespace Template

variable {t : Template} {b : Binding} {stop cursor : Nat} {input : Json}

/-- The context of the stage at a cursor, in a run up to a stop. -/
def contextAt (t : Template) (b : Binding) (stop cursor : Nat) : HelperContext :=
  b.contextAt t.environment stop cursor (b.runRemaining t.environment stop cursor)

/-- What the stage at a cursor answers. -/
def answer (t : Template) (b : Binding) (stop cursor : Nat) (stage : Stage) (input : Json) :
    Except Error Flow :=
  (stage.perform t.environment (t.contextAt b stop cursor) input).result

/-- The helper of the stage at a cursor leaves its input to other stages: `map` has elements
to run them for, `partial` has a partial to render. -/
def LeavesToOthers (t : Template) (b : Binding) (stop cursor : Nat) (helper : Helper)
    (args : List String) (input : Json) : Prop :=
  helper = .map ∧ input.elements?.isSome ∧ b.RunsElements stop cursor
    ∨ helper = .renderPartial ∧ ∃ part, args.head? = some part ∧ (t.partials.find? part).isSome

/-- The stages of a binding from a cursor on and before a stop fail on some input, in the
template that they belong to; the fault is the one of the innermost stage that fails. -/
inductive Fails : Template → Binding → Nat → Nat → Json → Fault → Prop where
  | later {t : Template} {b : Binding} {stop cursor next : Nat} {input value : Json}
      {stage : Stage} {flow : Flow} {fault : Fault} (hahead : cursor < stop)
      (hstage : b.stages[cursor]? = some stage)
      (hflow : t.answer b stop cursor stage input = .ok flow)
      (hnext : flow.landing? cursor = some (next, value)) (h : Fails t b stop next value fault) :
      Fails t b stop cursor input fault
  | unresolved {t : Template} {b : Binding} {stop cursor : Nat} {input : Json} {name : String}
      {args : List String} (hcall : b.CallsAt stop cursor name args)
      (hfind : t.helpers.find? name = none) :
      Fails t b stop cursor input ⟨b.path, name, .unresolved⟩
  | panic {t : Template} {b : Binding} {stop cursor : Nat} {input : Json} {name : String}
      {args : List String} {helper : Helper} {payload : Option String}
      (hcall : b.CallsAt stop cursor name args) (hfind : t.helpers.find? name = some helper)
      (hpanics : (helper (t.contextAt b stop cursor) args input).value = .panic payload) :
      Fails t b stop cursor input ⟨b.path, name, .panic payload⟩
  | failure {t : Template} {b : Binding} {stop cursor : Nat} {input : Json} {name : String}
      {args : List String} {helper : Helper} {e : Error}
      (hcall : b.CallsAt stop cursor name args) (hfind : t.helpers.find? name = some helper)
      (hown : ¬ t.LeavesToOthers b stop cursor helper args input)
      (hfails : (helper (t.contextAt b stop cursor) args input).value = .failure e) :
      Fails t b stop cursor input ⟨b.path, name, .failure e⟩
  | element {t : Template} {b : Binding} {stop cursor : Nat} {input value : Json} {name : String}
      {args : List String} {values : List Json} {fault : Fault}
      (hcall : b.CallsAt stop cursor name args) (hfind : t.helpers.find? name = some .map)
      (helements : input.elements? = some values) (hruns : b.RunsElements stop cursor)
      (hvalue : value ∈ values)
      (h : Fails t b (b.elementStop stop cursor) (cursor + 1) value fault) :
      Fails t b stop cursor input fault
  | nested {t inner : Template} {b c : Binding} {stop cursor : Nat} {input value : Json}
      {name part : String} {args : List String} {fault : Fault}
      (hcall : b.CallsAt stop cursor name (part :: args))
      (hfind : t.helpers.find? name = some .renderPartial) (hinput : input.isNull = false)
      (hinner : t.partials.find? part = some inner) (hc : c ∈ inner.bindings)
      (hvalue : c.initial? input = some value) (h : Fails inner c c.stages.length 1 value fault) :
      Fails t b stop cursor input fault

/-- A binding fails on the data of a render, with the fault of the innermost stage. -/
def FailsIn (t : Template) (b : Binding) (data : Json) (fault : Fault) : Prop :=
  ∃ value, b.initial? data = some value ∧ t.Fails b b.stages.length 1 value fault

end Template

/-! ### The helpers that leave their input to others -/

theorem map_eq_error_iff {α β : Type} {r : Except Error α} {g : α → β} {e : Error} :
    r.map g = .error e ↔ r = .error e := by
  cases r <;> simp [Except.map]

theorem Outcome.ofResult_eq_failure_iff {r : Except Error Flow} {e : Error} :
    Outcome.ofResult r = .failure e ↔ r = .error e := by
  cases r <;> simp [Outcome.ofResult]

namespace Helper

variable {ctx : HelperContext} {args : List String} {input : Json} {e : Error}

/-- With elements, `map` fails as their runs do. -/
theorem map_eq_failure_iff {values : List Json} (h : input.elements? = some values) :
    (map ctx args input).value = .failure e
      ↔ (runEach ctx ((boundary? ctx.remaining).getD ctx.remaining.length) values).result
          = .error e := by
  rw [value_map, Outcome.ofResult_eq_failure_iff, DocTemplate.map_eq_error_iff]
  cases input with
  | array items =>
    obtain rfl := Option.some.inj h
    rw [mapElements, Run.result_bind]
    exact map_eq_error_iff (g := Json.array)
  | object members =>
    obtain rfl := Option.some.inj h
    rw [mapElements, Run.result_bind]
    exact map_eq_error_iff (g := fun values => Json.object ((Entries.keys members).zip values))
  | null | bool | number | string => simp [Json.elements?] at h

theorem exists_of_runEach {count : Nat} {values : List Json}
    (h : (runEach ctx count values).result = .error e) :
    ∃ value ∈ values, (ctx.runRemaining .task count value).value.outcome
      ("map:" ++ ctx.path.display) = .error e := by
  have hmem := Batch.mem_outcomes_of_collectAlong (Batch.completes_order _) h
  simpa [elements, Batch.outcomes] using hmem

theorem runEach_fails {count : Nat} {values : List Json} {value : Json} (hvalue : value ∈ values)
    (h : (ctx.runRemaining .task count value).value.outcome ("map:" ++ ctx.path.display)
      = .error e) :
    ∃ e', (runEach ctx count values).result = .error e' := by
  cases hresult : (runEach ctx count values).result with
  | error e' => exact ⟨e', rfl⟩
  | ok results =>
    have houtcomes := (Batch.collectAlong_eq_ok_iff (Batch.completes_order _) results).mp hresult
    have hmem : (.error e : Except Error Json) ∈ results.map .ok := by
      rw [← houtcomes]
      simpa [elements, Batch.outcomes] using ⟨value, hvalue, h⟩
    simp at hmem

theorem renderPartial_eq_failure_iff {part : String} {render : Renderer}
    (hfind : ctx.partial? part = some render) :
    (renderPartial ctx (part :: args) input).value = .failure e
      ↔ input.isNull = false ∧ (render input).result = .error e := by
  rw [renderPartial, value_ofRun, Outcome.ofResult_eq_failure_iff]
  by_cases hinput : input.isNull
  · simp [hinput]
  · simp only [hinput, Bool.false_eq_true, if_false, hfind, Run.result_bind, true_and]
    exact map_eq_error_iff (g := Flow.next)

end Helper

/-! ### Chains -/

namespace Binding

variable {env : Environment} {b : Binding} {stop cursor : Nat}

theorem result_continueFrom_of_landing {flow : Flow} {next : Nat} {value : Json}
    (h : flow.landing? cursor = some (next, value)) :
    (b.continueFrom env stop cursor flow).result = (b.runFrom env stop next value).result := by
  rw [result_continueFrom]
  cases flow with
  | next value =>
    obtain ⟨rfl, rfl⟩ := Prod.mk.inj (Option.some.inj h)
    rfl
  | skip value count =>
    obtain ⟨rfl, rfl⟩ := Prod.mk.inj (Option.some.inj h)
    rfl
  | exit value => simp [Flow.landing?] at h

theorem exists_landing_of_error {flow : Flow} {e : Error}
    (h : (b.continueFrom env stop cursor flow).result = .error e) :
    ∃ next value, flow.landing? cursor = some (next, value) ∧ cursor < next
      ∧ (b.runFrom env stop next value).result = .error e := by
  rw [result_continueFrom] at h
  cases flow with
  | next value => exact ⟨_, value, rfl, by omega, h⟩
  | skip value count => exact ⟨_, value, rfl, by omega, h⟩
  | exit value => simp at h

end Binding

namespace Template

variable {t : Template} {b : Binding} {stop cursor : Nat} {input : Json} {e : Error}

theorem outcome_runRemaining_contextAt (t : Template) (h : cursor < stop)
    (hruns : b.RunsElements stop cursor) (label : String) (value : Json) :
    ((t.contextAt b stop cursor).runRemaining .task
        ((Helper.boundary? (t.contextAt b stop cursor).remaining).getD
          (t.contextAt b stop cursor).remaining.length) value).value.outcome label
      = (b.runFrom t.environment (b.elementStop stop cursor) (cursor + 1) value).result := by
  have hbehind : Binding.behind stop cursor = cursor + 1 := Nat.min_eq_left h
  have hrun := Binding.runRemaining_of_lt hruns t.environment b .task value
  show (b.runRemaining t.environment stop cursor .task (b.elementCount stop cursor)
    value).value.outcome label = _
  rw [hrun, Ending.outcome_ofRun, ← Binding.elementStop, hbehind]
  rfl

theorem answer_call (t : Template) (b : Binding) (stop cursor : Nat) (name : String)
    (args : List String) (input : Json) :
    t.answer b stop cursor (.call name args) input
      = match t.helpers.find? name with
        | none => .error (.unknownHelper name b.path.display)
        | some helper =>
          (helper (t.contextAt b stop cursor) args input).value.located name b.path :=
  Binding.result_perform_call _ _ _ _ _

theorem result_runFrom {stage : Stage} (h : cursor < stop) (hstage : b.stages[cursor]? = some stage)
    (t : Template) (input : Json) :
    (b.runFrom t.environment stop cursor input).result
      = (t.answer b stop cursor stage input).bind fun flow =>
          (b.continueFrom t.environment stop cursor flow).result := by
  rw [Binding.runFrom_eq h hstage, Run.result_bind]
  rfl

/-- Partials that fail fail with the error of a fault. -/
def PartialsFault (t : Template) : Prop :=
  ∀ part inner, t.partials.find? part = some inner → ∀ data e,
    (inner.renderBy .task data).result = .error e →
      ∃ c ∈ inner.bindings, ∃ fault, inner.FailsIn c data fault ∧ e = fault.error

theorem partial?_contextAt (t : Template) (b : Binding) (stop cursor : Nat) (part : String) :
    (t.contextAt b stop cursor).partial? part
      = (t.partials.find? part).map fun inner data => inner.renderBy .task data :=
  find?_renderers t.partials part

/-- A stage that fails has failed by itself, or in the stages that its helper leaves its
input to. -/
theorem exists_fails_of_answer (hpartials : t.PartialsFault)
    (helement : ∀ value e, (b.runFrom t.environment (b.elementStop stop cursor) (cursor + 1)
      value).result = .error e →
        ∃ fault, t.Fails b (b.elementStop stop cursor) (cursor + 1) value fault ∧ e = fault.error)
    {name : String} {args : List String} (hcall : b.CallsAt stop cursor name args)
    (h : t.answer b stop cursor (.call name args) input = .error e) :
    ∃ fault, t.Fails b stop cursor input fault ∧ e = fault.error := by
  rw [answer_call] at h
  cases hfind : t.helpers.find? name with
  | none =>
    rw [hfind] at h
    exact ⟨_, .unresolved hcall hfind, (Except.error.inj h).symm⟩
  | some helper =>
    simp only [hfind] at h
    cases hvalue : (helper (t.contextAt b stop cursor) args input).value with
    | flow answer => simp [hvalue, Outcome.located] at h
    | panic payload =>
      rw [hvalue] at h
      exact ⟨_, .panic hcall hfind hvalue, (Except.error.inj h).symm⟩
    | failure inner =>
      rw [hvalue] at h
      obtain rfl := Except.error.inj h
      by_cases hown : t.LeavesToOthers b stop cursor helper args input
      · -- What is handed on is located already.
        suffices hfault : ∃ fault, t.Fails b stop cursor input fault ∧ inner = fault.error by
          obtain ⟨fault, hfails, rfl⟩ := hfault
          exact ⟨fault, hfails, fault.locate_error name b.path⟩
        rcases hown with ⟨rfl, helements, hruns⟩ | ⟨rfl, part, hpart, hknown⟩
        · obtain ⟨values, helements⟩ := Option.isSome_iff_exists.mp helements
          obtain ⟨value, hmem, hfails⟩ :=
            Helper.exists_of_runEach ((Helper.map_eq_failure_iff helements).mp hvalue)
          rw [outcome_runRemaining_contextAt t hcall.ahead hruns] at hfails
          obtain ⟨fault, hfails, herror⟩ := helement value inner hfails
          exact ⟨fault, .element hcall hfind helements hruns hmem hfails, herror⟩
        · obtain ⟨others, rfl⟩ := List.head?_eq_some_iff.mp hpart
          obtain ⟨template, htemplate⟩ := Option.isSome_iff_exists.mp hknown
          have hrender : (t.contextAt b stop cursor).partial? part
              = some fun data => template.renderBy .task data := by
            rw [partial?_contextAt, htemplate]
            rfl
          obtain ⟨hinput, hfails⟩ := (Helper.renderPartial_eq_failure_iff hrender).mp hvalue
          obtain ⟨c, hc, fault, ⟨value, hinitial, hfault⟩, herror⟩ :=
            hpartials part template htemplate input inner hfails
          exact ⟨fault, .nested hcall hfind hinput htemplate hc hinitial hfault, herror⟩
      · exact ⟨_, .failure hcall hfind hown hvalue, rfl⟩

/-- A chain that fails does so with the error of a fault. -/
theorem exists_fails_of_error (hpartials : t.PartialsFault) (b : Binding) (stop cursor : Nat)
    (input : Json) (e : Error) (h : (b.runFrom t.environment stop cursor input).result = .error e) :
    ∃ fault, t.Fails b stop cursor input fault ∧ e = fault.error := by
  -- The stages for an element lie behind the `map`, nearer to the stop.
  induction hn : stop - cursor using Nat.strongRecOn generalizing stop cursor input e with
  | ind n ih =>
    by_cases hcursor : stop ≤ cursor
    · simp [Binding.runFrom_of_le hcursor] at h
    · have hahead : cursor < stop := by omega
      cases hstage : b.stages[cursor]? with
      | none => simp [Binding.runFrom_past_end (List.getElem?_eq_none_iff.mp hstage)] at h
      | some stage =>
        rw [result_runFrom hahead hstage] at h
        cases hanswer : t.answer b stop cursor stage input with
        | ok flow =>
          rw [hanswer] at h
          obtain ⟨next, value, hlanding, hnext, herror⟩ := Binding.exists_landing_of_error h
          obtain ⟨fault, hfails, he⟩ := ih (stop - next) (by omega) stop next value e herror rfl
          exact ⟨fault, .later hahead hstage hanswer hlanding hfails, he⟩
        | error own =>
          rw [hanswer] at h
          obtain rfl : own = e := Except.error.inj h
          cases stage with
          | literal value => simp [answer, Stage.perform] at hanswer
          | data source => simp [answer, Stage.perform] at hanswer
          | call name args =>
            refine exists_fails_of_answer hpartials ?_ ⟨hahead, hstage⟩ hanswer
            intro value e helement
            have hstop : b.elementStop stop cursor ≤ stop := Nat.min_le_right _ _
            exact ih _ (by omega) _ _ value e helement rfl

end Template

/-! ### Bindings -/

namespace Pipeline

theorem dropBesidePipes_ne_nil (first : Bool) {parts : List (List Char)} (h : parts ≠ []) :
    dropBesidePipes first parts ≠ [] := by
  match parts with
  | [] => exact absurd rfl h
  | [_] => simp [dropBesidePipes]
  | _ :: _ :: _ => simp [dropBesidePipes]

theorem calls_ne_nil (text : String) : calls text ≠ [] := by
  rw [calls, ne_eq, List.map_eq_nil_iff]
  exact dropBesidePipes_ne_nil true (Text.pieces_ne_nil '|' text.toList)

end Pipeline

namespace Binding

variable {b : Binding} {data value : Json}

/-- The stages are those of a pipeline: a first one, which is no call, and calls behind it. -/
def Proper (b : Binding) : Prop :=
  ∃ first others, b.stages = first :: others ∧ first.helperName? = none
    ∧ ∀ stage ∈ others, stage.helperName?.isSome

theorem proper_of_ofLeaf? {text : String} {path : Path} (h : ofLeaf? text path = some b) :
    b.Proper := by
  obtain ⟨expression, _, rfl⟩ := Option.map_eq_some_iff.mp h
  cases hcalls : Pipeline.calls expression with
  | nil => exact absurd hcalls (Pipeline.calls_ne_nil expression)
  | cons first others =>
    refine ⟨.ofFirst first, others.map .ofLater, rfl, ?_, ?_⟩
    · unfold Stage.ofFirst
      split <;> rfl
    · intro stage hstage
      obtain ⟨call, _, rfl⟩ := List.mem_map.mp hstage
      rfl

theorem Proper.exists_initial (h : b.Proper) (data : Json) :
    ∃ value, b.initial? data = some value := by
  obtain ⟨first, others, hstages, hfirst, _⟩ := h
  unfold initial?
  rw [hstages]
  cases first with
  | literal value => exact ⟨value, rfl⟩
  | data source => exact ⟨source.resolve data, rfl⟩
  | call name args => simp [Stage.helperName?] at hfirst

theorem result_evaluate (env : Environment) (h : b.initial? data = some value) :
    (b.evaluate env data).result = (b.runFrom env b.stages.length 1 value).result := by
  have hcontinue (value : Json) : (evaluate.continueWith env b value).result
      = (b.runFrom env b.stages.length 1 value).result := by
    rw [evaluate.continueWith, Run.result_bind, result_giveWay, runRange, Nat.min_self]
    rfl
  unfold initial? at h
  rw [evaluate]
  split at h
  next first hfirst =>
    obtain rfl := Option.some.inj h
    rw [hfirst]
    exact hcontinue first
  next source hfirst =>
    obtain rfl := Option.some.inj h
    rw [hfirst]
    exact hcontinue (source.resolve data)
  next => simp at h

end Binding

/-! ### Scenes -/

namespace Scene

variable {s : Scene} {runner : Runner} {partials : Entries Renderer} {data : Json}
  {order : List Nat}

theorem Compiled.proper (h : s.Compiled) {b : Binding} (hb : b ∈ s.bindings) : b.Proper := by
  rw [h.bindings] at hb
  obtain ⟨_, text, _, hleaf⟩ := (Binding.mem_ofTemplate_iff h.wellFormed).mp hb
  exact Binding.proper_of_ofLeaf? hleaf

/-- The values of all bindings of a compiled scene can be written. -/
theorem Compiled.exists_assemble (h : s.Compiled) {values : List Json}
    (hvalues : (s.batch runner partials data).outcomes = values.map .ok) :
    ∃ doc, s.assemble values = .ok doc := by
  obtain ⟨value, rfl, _⟩ := exists_map_of_outcomes hvalues
  rw [h.bindings]
  exact ⟨_, Template.assemble_map (t := .mk s []) value h.wellFormed rfl h.bindings⟩

theorem Compiled.exists_of_renderAlong (h : s.Compiled)
    (ho : (s.batch runner partials data).Completes order) {e : Error}
    (he : (s.renderAlong runner partials order data).result = .error e) :
    ∃ b ∈ s.bindings, (b.evaluate (s.environment partials) data).result = .error e := by
  rw [result_renderAlong] at he
  cases hcollect : ((s.batch runner partials data).collectAlong order).result with
  | error own =>
    rw [hcollect] at he
    obtain rfl : own = e := Except.error.inj he
    have hmem := Batch.mem_outcomes_of_collectAlong ho hcollect
    rw [outcomes_batch] at hmem
    exact List.mem_map.mp hmem
  | ok values =>
    obtain ⟨doc, hdoc⟩ := h.exists_assemble ((Batch.collectAlong_eq_ok_iff ho values).mp hcollect)
    rw [hcollect] at he
    simp [Except.bind, hdoc] at he

theorem renderAlong_fails (ho : (s.batch runner partials data).Completes order) {b : Binding}
    (hb : b ∈ s.bindings) {e : Error}
    (he : (b.evaluate (s.environment partials) data).result = .error e) :
    ∃ e', (s.renderAlong runner partials order data).result = .error e' := by
  rw [result_renderAlong]
  cases hcollect : ((s.batch runner partials data).collectAlong order).result with
  | error e' => exact ⟨e', rfl⟩
  | ok values =>
    have hmem : (.error e : Except Error Json) ∈ values.map .ok := by
      rw [← (Batch.collectAlong_eq_ok_iff ho values).mp hcollect, outcomes_batch, ← he]
      exact List.mem_map_of_mem hb
    simp at hmem

end Scene

/-! ### Templates -/

namespace Template

variable {t : Template} {data : Json} {e : Error}

theorem renderBy_eq (t : Template) (runner : Runner) (data : Json) :
    t.renderBy runner data = t.scene.renderAlong runner (renderers t.partials)
      (t.scene.batch runner (renderers t.partials) data).order data := by
  cases t
  rfl

/-- Where there is a fault a failure comes out. -/
theorem Fails.exists_error {b : Binding} {stop cursor : Nat} {input : Json} {fault : Fault}
    (h : t.Fails b stop cursor input fault) :
    ∃ e, (b.runFrom t.environment stop cursor input).result = .error e := by
  induction h with
  | later hahead hstage hflow hnext h ih =>
    obtain ⟨e, he⟩ := ih
    refine ⟨e, ?_⟩
    rw [result_runFrom hahead hstage, hflow]
    exact (Binding.result_continueFrom_of_landing hnext).trans he
  | @unresolved t b stop cursor input name args hcall hfind =>
    refine ⟨.unknownHelper name b.path.display, ?_⟩
    rw [result_runFrom hcall.ahead hcall.stage, answer_call, hfind]
    rfl
  | panic hcall hfind hpanics =>
    rw [result_runFrom hcall.ahead hcall.stage, answer_call, hfind]
    simp only [hpanics]
    exact ⟨_, rfl⟩
  | failure hcall hfind _ hfails =>
    rw [result_runFrom hcall.ahead hcall.stage, answer_call, hfind]
    simp only [hfails]
    exact ⟨_, rfl⟩
  | @element t b stop cursor input value name args values fault hcall hfind helements hruns hvalue h
      ih =>
    obtain ⟨e, he⟩ := ih
    rw [← outcome_runRemaining_contextAt t hcall.ahead hruns ("map:" ++ b.path.display)] at he
    obtain ⟨e', heach⟩ := Helper.runEach_fails hvalue he
    have hfails : (Helper.map (t.contextAt b stop cursor) args input).value = .failure e' :=
      (Helper.map_eq_failure_iff helements).mpr heach
    rw [result_runFrom hcall.ahead hcall.stage, answer_call, hfind]
    simp only [hfails]
    exact ⟨_, rfl⟩
  | @nested t inner b c stop cursor input value name part args fault hcall hfind hinput hinner hc
      hinitial h ih =>
    obtain ⟨e, he⟩ := ih
    rw [← Binding.result_evaluate _ hinitial] at he
    obtain ⟨e', hrender⟩ := Scene.renderAlong_fails (Batch.completes_order _) hc he
    rw [← renderBy_eq inner .task input] at hrender
    have hpartial : (t.contextAt b stop cursor).partial? part
        = some fun data => inner.renderBy .task data := by
      rw [partial?_contextAt, hinner]
      rfl
    have hfails : (Helper.renderPartial (t.contextAt b stop cursor) (part :: args) input).value
        = .failure e' := (Helper.renderPartial_eq_failure_iff hpartial).mpr ⟨hinput, hrender⟩
    rw [result_runFrom hcall.ahead hcall.stage, answer_call, hfind]
    simp only [hfails]
    exact ⟨_, rfl⟩

/-- A binding fails with the error of the fault of its innermost stage that fails. -/
theorem exists_failsIn (h : t.Throughout Scene.Compiled) {b : Binding} (hb : b ∈ t.bindings)
    (he : (b.evaluate t.environment data).result = .error e) :
    ∃ fault, t.FailsIn b data fault ∧ e = fault.error := by
  -- The induction goes from the innermost partials outwards.
  induction h generalizing b data e with
  | @mk scene partials here below ih =>
    have hpartials : (Template.mk scene partials).PartialsFault := by
      intro part inner hinner data e hrender
      rw [renderBy_eq] at hrender
      cases below part inner hinner with
      | mk hcompiled _ =>
        obtain ⟨c, hc, hfails⟩ :=
          hcompiled.exists_of_renderAlong (Batch.completes_order _) hrender
        obtain ⟨fault, hfault⟩ := ih part _ hinner hc hfails
        exact ⟨c, hc, fault, hfault⟩
    obtain ⟨value, hinitial⟩ := (here.proper hb).exists_initial data
    rw [Binding.result_evaluate _ hinitial] at he
    obtain ⟨fault, hfails, herror⟩ := exists_fails_of_error hpartials b _ 1 value e he
    exact ⟨fault, ⟨value, hinitial, hfails⟩, herror⟩

/-- An error names a stage, and it is the error of the innermost stage that fails in a
binding. -/
structure ComesFrom (t : Template) (b : Binding) (data : Json) (e : Error) : Prop where
  located : e.isLocated = true
  fault : ∃ fault, t.FailsIn b data fault ∧ e = fault.error

theorem exists_comesFrom (h : t.Throughout Scene.Compiled) {b : Binding} (hb : b ∈ t.bindings)
    (he : (b.evaluate t.environment data).result = .error e) : t.ComesFrom b data e := by
  obtain ⟨fault, hfails, rfl⟩ := exists_failsIn h hb he
  exact ⟨fault.isLocated_error, fault, hfails, rfl⟩

theorem renderAlong_comesFrom (h : t.Throughout Scene.Compiled) {order : List Nat}
    (ho : (t.batch data).Completes order) (he : (t.renderAlong data order).result = .error e) :
    ∃ b ∈ t.bindings, t.ComesFrom b data e := by
  have hcompiled : t.scene.Compiled := by
    cases h with
    | mk here _ => exact here
  obtain ⟨b, hb, hfails⟩ := hcompiled.exists_of_renderAlong ho he
  exact ⟨b, hb, exists_comesFrom h hb hfails⟩

theorem getElem?_errors_settle (t : Template) (data : Json) (i : Nat) (e : Error) :
    (t.settle data).value.errors[i]? = some (some e)
      ↔ ∃ b, t.bindings[i]? = some b ∧ (b.evaluate t.environment data).result = .error e := by
  have hsettle : (t.settle data).value.errors
      = t.bindings.map fun b => Join.fatal? .abort (b.evaluate t.environment data).result := by
    cases t
    rw [settle, Scene.value_settle, Scene.outcomes_batch, List.map_map]
    rfl
  rw [hsettle, List.getElem?_map]
  cases t.bindings[i]? with
  | none => simp
  | some b =>
    cases hresult : (b.evaluate t.environment data).result with
    | ok value => simp [hresult, Join.fatal?]
    | error own => simp [hresult, Join.fatal?]

/-- The error with which a render fails is the one of the innermost stage that fails in some
binding, whatever the order in which the bindings complete, and through however many `map`s
and partials it has come; the account of all bindings has such an error for each binding that
fails.  Where a stage fails a failure comes out.  In no template and in no partial a binding
has no stages, or begins with a call. -/
theorem faults_reach_caller (h : t.Throughout Scene.Compiled) (data : Json) :
    (∀ e, (t.render data).result = .error e → ∃ b ∈ t.bindings, t.ComesFrom b data e)
      ∧ (∀ order, (t.batch data).Completes order → ∀ e,
          (t.renderAlong data order).result = .error e → ∃ b ∈ t.bindings, t.ComesFrom b data e)
      ∧ (∀ (i : Nat) (e : Error), (t.settle data).value.errors[i]? = some (some e) →
          ∃ b, t.bindings[i]? = some b ∧ t.ComesFrom b data e)
      ∧ (∀ (i : Nat) (b : Binding) (fault : Fault), t.bindings[i]? = some b →
          t.FailsIn b data fault →
            (∃ e, (t.render data).result = .error e)
              ∧ ∃ e, (t.settle data).value.errors[i]? = some (some e))
      ∧ t.Throughout fun s => ∀ b ∈ s.bindings, b.Proper := by
  refine ⟨?_, ?_, ?_, ?_, ?_⟩
  · intro e he
    rw [render_eq_renderAlong] at he
    exact renderAlong_comesFrom h (Batch.completes_order _) he
  · intro order ho e he
    exact renderAlong_comesFrom h ho he
  · intro i e he
    obtain ⟨b, hb, hfails⟩ := (getElem?_errors_settle t data i e).mp he
    exact ⟨b, hb, exists_comesFrom h (List.mem_of_getElem? hb) hfails⟩
  · rintro i b fault hb ⟨value, hinitial, hfails⟩
    obtain ⟨e, he⟩ := hfails.exists_error
    rw [← Binding.result_evaluate _ hinitial] at he
    constructor
    · rw [render_eq_renderAlong]
      exact Scene.renderAlong_fails (Batch.completes_order _) (List.mem_of_getElem? hb) he
    · exact ⟨e, (getElem?_errors_settle t data i e).mpr ⟨b, hb, he⟩⟩
  · induction h with
    | mk here below ih => exact .mk (fun b hb => here.proper hb) fun name t hfind => ih name t hfind

/-- A template that renders a partial for every row, in which a helper panics. -/
def explodingTemplate : Template :=
  let registry := Registry.initial.register "explode" Catalog.explode
  let row := Engine.template ⟨registry, [], .standard, none⟩
    (.object [("cells", .string "\x60cells | map | explode\x60")]) .null
  Engine.template ⟨registry, [("row", row)], .standard, some .standard⟩
    (.object [("rows", .string "\x60rows | map | partial:row\x60")]) .null

/-- One row with one cell. -/
def explodingData : Json := .object [("rows", .array [.object [("cells", .array [.null])]])]

theorem compiled_explodingTemplate : explodingTemplate.Throughout Scene.Compiled := by
  have hleaf (key text : String) : (Json.object [(key, .string text)]).WellFormed :=
    Json.wellFormed_object_texts (List.pairwise_singleton _ _) (by simp [Json.text?])
  refine throughout_compiled_template (hleaf _ _) ?_ _
  intro name t hfind
  simp only [Entries.find?] at hfind
  split at hfind
  · obtain rfl := Option.some.inj hfind
    refine throughout_compiled_template (hleaf _ _) ?_ _
    intro name t hfind
    simp at hfind
  · simp at hfind

/-- The panic in the partial comes out with the path in the partial. -/
theorem faults_reach_caller_exploding : explodingTemplate.Throughout Scene.Compiled
    ∧ (explodingTemplate.render explodingData).result = .error (.panicked "cells" "kaboom")
    ∧ ∃ b ∈ explodingTemplate.bindings,
      explodingTemplate.ComesFrom b explodingData (.panicked "cells" "kaboom") := by
  have hcompiled := compiled_explodingTemplate
  have hresult : (explodingTemplate.render explodingData).result
      = .error (.panicked "cells" "kaboom") := by
    cbv
  exact ⟨hcompiled, hresult, (faults_reach_caller hcompiled explodingData).1 _ hresult⟩

end Template

/-! ### Sessions -/

/-- Whatever has been done in a session, its templates fail with errors that name a stage, in
whatever order their bindings complete, and so does the account of all bindings. -/
theorem Session.failures_name_stages {past : List Operation} (hpast : ∀ op ∈ past, op.WellFormed)
    {name : String} {t : Template} (ht : (after past).templates.find? name = some t) (data : Json) :
    (∀ order, (t.batch data).Completes order → ∀ e, (t.renderAlong data order).result = .error e →
        ∃ b ∈ t.bindings, t.ComesFrom b data e)
      ∧ ∀ (i : Nat) (e : Error), (t.settle data).value.errors[i]? = some (some e) →
          ∃ b, t.bindings[i]? = some b ∧ t.ComesFrom b data e := by
  have hcompiled := compiled_after hpast ht
  constructor
  · intro order ho e he
    exact Template.renderAlong_comesFrom hcompiled ho he
  · intro i e he
    obtain ⟨b, hb, hfails⟩ := (Template.getElem?_errors_settle t data i e).mp he
    exact ⟨b, hb, Template.exists_comesFrom hcompiled (List.mem_of_getElem? hb) hfails⟩

end DocTemplate
