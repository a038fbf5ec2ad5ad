/-
What the observer of a render hears.

Whoever listens hears of every binding, and of every element of every collection that a
`map` goes through.  `Registry.gives` and `Registry.mappings` go down the stages of a
chain and know of no batch, no ceiling and no observer: the one gives the value of a
chain, the other lists the executions of `map` in it, those inside the elements of others
included.  `Engine.accounts` puts together what is to be heard.  Main facts:

* `Binding.tells_runFrom` — running stages tells of the mappings in them, by induction on
  what is left up to the stop;
* `Engine.observer_hears_everything` — what is heard of a render that gives a document is
  what is to be heard, under every configuration and in every order of completion.
-/
import DocTemplate.Proofs.DocumentOrder
import DocTemplate.Proofs.Faults
import DocTemplate.Proofs.Sequence
import DocTemplate.Proofs.Settings
import DocTemplate.Proofs.Telling

namespace DocTemplate

open DocTemplate.Text

/-! ### What is to be heard -/

/-- The helper with a name is the built-in `map`. -/
def Registry.Maps (r : Registry) (name : String) : Prop := r.find? name = some Helper.map

/-- A context of a helper with nothing around it: nothing behind its stage, no partials,
and nobody who listens. -/
def HelperContext.bare (options : Json) (path : Path) : HelperContext where
  runner := .foreground
  path := path
  options := options
  config := .standard
  observed := false
  remaining := []
  runRemaining := fun _ _ input => pure (.value input)
  partial? := fun _ => none
  resolves := fun _ => false

/-- How a chain goes on behind the helper with a name, if that does not fail. -/
def Registry.flow? (r : Registry) (options : Json) (path : Path) (name : String)
    (args : List String) (input : Json) : Option Flow := do
  ((← r.find? name) (.bare options path) args input).value.flow?

/-- The elements of a collection; other documents have none. -/
def Json.elements (doc : Json) : List Json := doc.elements?.getD []

/-- One execution of `map`: the stages that run for every element, and the collection. -/
structure Mapping where
  stages : List Stage
  input : Json
  deriving DecidableEq

namespace Registry

variable (r : Registry) [DecidablePred r.Maps] (options : Json) (path : Path)

/-- The value that stages give for an input; none when one of them fails. -/
def gives : List Stage → Json → Option Json
  | [], input => some input
  | .literal value :: rest, _ => gives rest value
  | .data source :: rest, input => gives rest (source.resolve input)
  | .call name args :: rest, input =>
    if r.Maps name then do
      -- The elements run the stages in front of the first boundary, the chain goes on at it.
      let aggregate ← input.mapElements? (gives (rest.takeWhile (! Helper.isBoundary ·)))
      gives (rest.dropWhile (! Helper.isBoundary ·)) aggregate
    else
      match r.flow? options path name args input with
      | some (.next value) => gives rest value
      | some (.skip value count) => gives (rest.drop count) value
      | some (.exit value) => some value
      | none => none
termination_by stages => stages.length
decreasing_by
  all_goals simp only [List.length_cons, List.length_drop]
  · omega
  · omega
  · exact Nat.lt_succ_of_le (List.takeWhile_sublist _).length_le
  · exact Nat.lt_succ_of_le (List.dropWhile_sublist _).length_le
  · omega
  · omega

/-- The executions of `map` in stages that run on an input: each with those inside its
elements, and then those behind it. -/
def mappings : List Stage → Json → List Mapping
  | [], _ => []
  | .literal value :: rest, _ => mappings rest value
  | .data source :: rest, input => mappings rest (source.resolve input)
  | .call name args :: rest, input =>
    if r.Maps name then
      ⟨rest.takeWhile (! Helper.isBoundary ·), input⟩
        :: input.elements.flatMap (mappings (rest.takeWhile (! Helper.isBoundary ·)))
        -- Behind a collection that fails nothing runs.
        ++ match input.mapElements? (r.gives options path
            (rest.takeWhile (! Helper.isBoundary ·))) with
          | some aggregate => mappings (rest.dropWhile (! Helper.isBoundary ·)) aggregate
          | none => []
    else
      match r.flow? options path name args input with
      | some (.next value) => mappings rest value
      | some (.skip value count) => mappings (rest.drop count) value
      | some (.exit _) => []
      | none => []
termination_by stages => stages.length
decreasing_by
  all_goals simp only [List.length_cons, List.length_drop]
  · omega
  · omega
  · exact Nat.lt_succ_of_le (List.takeWhile_sublist _).length_le
  · exact Nat.lt_succ_of_le (List.dropWhile_sublist _).length_le
  · omega
  · omega

/-- The accounts of an execution of `map`: one for each element, with the value that the
stages give for it. -/
def accountsOfMapping (m : Mapping) : List Account :=
  Account.ofValues ("map:" ++ path.display) (m.input.elements.map (r.gives options path m.stages))

/-- What is to be heard of stages that run on an input. -/
def accounts (stages : List Stage) (input : Json) : List Account :=
  (r.mappings options path stages input).flatMap (r.accountsOfMapping options path)

variable {r options path}

/-- The accounts of a `map` with what is behind it, when its elements give a collection. -/
theorem accounts_of_maps {name : String} (hmap : r.Maps name) (args : List String)
    {rest : List Stage} {input aggregate : Json}
    (haggregate : input.mapElements? (r.gives options path
      (rest.takeWhile (! Helper.isBoundary ·))) = some aggregate) :
    r.accounts options path (.call name args :: rest) input
      = Account.ofValues ("map:" ++ path.display)
          (input.elements.map (r.gives options path (rest.takeWhile (! Helper.isBoundary ·))))
        ++ input.elements.flatMap (r.accounts options path (rest.takeWhile (! Helper.isBoundary ·)))
        ++ r.accounts options path (rest.dropWhile (! Helper.isBoundary ·)) aggregate := by
  rw [accounts, mappings, if_pos hmap, haggregate]
  simp only [List.cons_append, List.flatMap_cons, List.flatMap_append, List.flatMap_assoc,
    List.append_assoc]
  rfl

end Registry

/-- What is to be heard of a render that gives a document: one account for each binding,
with what stands at its path, and those of every execution of `map`. -/
def Engine.accounts (e : Engine) [DecidablePred e.helpers.Maps] (document options data doc : Json) :
    List Account :=
  let bindings := Binding.ofTemplate document
  Account.ofValues "render" (bindings.map fun b => doc.at? b.path)
    ++ bindings.flatMap fun b => e.helpers.accounts options b.path b.stages data

/-! ### Helpers -/

namespace Helper

/-- The helper comes to an end, and tells the observer nothing. -/
structure Discreet (helper : Helper) : Prop where
  sound : ∀ ctx args input, Script.Sound (helper ctx args input).script
  silent : ∀ ctx args input, (helper ctx args input).script.accounts = []

theorem discreet_ofDelayed (delay : List String → Nat)
    (f : List String → Json → Except Error Json) : (ofDelayed delay f).Discreet := by
  have hscript (ctx : HelperContext) (args : List String) (input : Json) :
      (ofDelayed delay f ctx args input).script
        = (if delay args = 0 then [] else [.wait (delay args)]) ++ [] := rfl
  constructor
  · intro ctx args input
    rw [hscript]
    split
    · exact trivial
    · exact ⟨trivial, trivial⟩
  · intro ctx args input
    rw [hscript]
    split <;> rfl

/-- Without partials the helper answers what its input, its arguments, the path and the
options determine, and tells the observer nothing. -/
structure AnswersAlone (helper : Helper) : Prop where
  value : ∀ ctx : HelperContext, (∀ part, ctx.partial? part = none) → ∀ args input,
    (helper ctx args input).value = (helper (.bare ctx.options ctx.path) args input).value
  sound : ∀ ctx : HelperContext, (∀ part, ctx.partial? part = none) → ∀ args input,
    Script.Sound (helper ctx args input).script
  silent : ∀ ctx : HelperContext, (∀ part, ctx.partial? part = none) → ∀ args input,
    (helper ctx args input).script.accounts = []

theorem Discreet.answersAlone {helper : Helper} (h : helper.Discreet)
    (hdetermined : helper.Determined) : helper.AnswersAlone :=
  ⟨fun ctx _ args input => hdetermined ctx (.bare ctx.options ctx.path) rfl rfl args input,
    fun ctx _ => h.sound ctx, fun ctx _ => h.silent ctx⟩

theorem discreet_passOn : passOn.Discreet := ⟨fun _ _ _ => trivial, fun _ _ _ => rfl⟩

/-- Where there are no partials none is rendered. -/
theorem answersAlone_renderPartial : renderPartial.AnswersAlone := by
  have hcases (ctx : HelperContext) (h : ∀ part, ctx.partial? part = none) (args : List String)
      (input : Json) :
      renderPartial ctx args input = renderPartial (.bare ctx.options ctx.path) args input
        ∧ (renderPartial ctx args input).script = [] := by
    simp only [renderPartial, ofRun]
    by_cases hnull : input.isNull
    · simp only [hnull, if_true]
      exact ⟨trivial, rfl⟩
    · cases args with
      | nil =>
        simp only [hnull]
        exact ⟨trivial, rfl⟩
      | cons part args =>
        simp only [hnull, h part, HelperContext.bare]
        exact ⟨trivial, rfl⟩
  refine ⟨?_, ?_, ?_⟩
  · intro ctx h args input
    rw [(hcases ctx h args input).1]
  · intro ctx h args input
    rw [(hcases ctx h args input).2]
    exact trivial
  · intro ctx h args input
    rw [(hcases ctx h args input).2]
    rfl

end Helper

namespace Helper

/-- `map` fails on null, so a helper with an answer to it is another one. -/
theorem ne_map_of_value {helper : Helper} {flow : Flow} (ctx : HelperContext) (args : List String)
    (h : (helper ctx args .null).value = .flow flow) : helper ≠ map := by
  rintro rfl
  rw [value_map] at h
  simp [mapElements, Outcome.ofResult, Except.map] at h

end Helper

/-- Where no other helper is registered as `map`, and `map` under no other name, it is the
one helper that goes by that name. -/
theorem Registry.maps_iff {r : Registry} (h : ∀ name helper, r.own.find? name = some helper →
      name ≠ "map" ∧ helper ≠ Helper.map) (name : String) : r.Maps name ↔ name = "map" := by
  constructor
  · intro hmap
    rcases Option.or_eq_some_iff.mp hmap with hown | ⟨_, hbuiltIn⟩
    · exact absurd rfl (h name Helper.map hown).2
    · have hpassOn : Helper.passOn ≠ Helper.map := Helper.ne_map_of_value (.bare .null []) [] rfl
      have hrenderPartial : Helper.renderPartial ≠ Helper.map :=
        Helper.ne_map_of_value (.bare .null []) [] rfl
      simp only [Helper.builtIn, Entries.find?] at hbuiltIn
      grind
  · rintro rfl
    have hown : r.own.find? "map" = none := by
      rw [Option.eq_none_iff_forall_ne_some]
      intro helper hfind
      exact (h "map" helper hfind).1 rfl
    rw [Registry.Maps, Registry.find?, hown]
    rfl

/-- The helpers that are registered in front of the built-in ones are determined by what
they are given and tell the observer nothing, or are built-in ones under another name. -/
def Registry.Plain (r : Registry) : Prop :=
  ∀ name helper, r.own.find? name = some helper →
    helper.Determined ∧ helper.Discreet ∨ ∃ other, Helper.builtIn.find? other = some helper

/-- All helpers but `map` answer by themselves. -/
theorem Registry.Plain.answersAlone {r : Registry} (h : r.Plain) {name : String} {helper : Helper}
    (hfind : r.find? name = some helper) (hmap : ¬ r.Maps name) : helper.AnswersAlone := by
  have hbuiltIn {other : String} (hother : Helper.builtIn.find? other = some helper) :
      helper.AnswersAlone := by
    rcases Helper.builtIn_cases hother with rfl | rfl | ⟨_, rfl⟩
    · exact absurd hfind hmap
    · exact Helper.discreet_passOn.answersAlone Helper.determined_passOn
    · exact Helper.answersAlone_renderPartial
  rcases Option.or_eq_some_iff.mp hfind with hown | ⟨_, hother⟩
  · rcases h name helper hown with ⟨hdetermined, hdiscreet⟩ | ⟨other, hother⟩
    · exact hdiscreet.answersAlone hdetermined
    · exact hbuiltIn hother
  · exact hbuiltIn hother

/-- So every helper is determined by what it is given, or a built-in one. -/
theorem Registry.Plain.determined {r : Registry} (h : r.Plain) : r.Determined := by
  intro name helper hfind
  exact (h name helper hfind).imp_left And.left

/-! ### Stages -/

section Stage

variable {env : Environment} {ctx : HelperContext} {name : String} {args : List String}
  {input : Json} {flow : Flow}

/-- A call tells what its helper tells. -/
theorem tells_call {helper : Helper} {told : List Account} (hfind : env.helper? name = some helper)
    (hvalue : (helper ctx args input).value = .flow flow)
    (hsound : Script.Sound (helper ctx args input).script)
    (htold : (helper ctx args input).script.accounts.Perm told) :
    ((Stage.call name args).perform env ctx input).Tells flow told := by
  rw [Binding.perform_call_some hfind]
  have hlift := Run.Tells.lift (helper ctx args input) hsound
  have hend : (Run.ofExcept ((helper ctx args input).value.located name ctx.path)).Tells flow [] :=
    .ofExcept (by rw [hvalue]; rfl)
  refine Run.Tells.perm (Run.Tells.bind (Run.Tells.note rfl) (Run.Tells.bind hlift hend)) ?_
  simpa using htold

/-- A call that succeeds has found a helper, and the helper has answered with a flow. -/
theorem exists_of_perform_call
    (hok : ((Stage.call name args).perform env ctx input).result = .ok flow) :
    ∃ helper, env.helper? name = some helper ∧ (helper ctx args input).value = .flow flow := by
  rw [Binding.result_perform_call] at hok
  cases hfind : env.helper? name with
  | none => simp [hfind] at hok
  | some helper =>
    refine ⟨helper, rfl, ?_⟩
    rw [hfind] at hok
    cases hvalue : (helper ctx args input).value with
    | flow answer => simpa [hvalue, Outcome.located] using hok
    | failure e => simp [hvalue, Outcome.located] at hok
    | panic payload => simp [hvalue, Outcome.located] at hok

/-- A helper other than `map` tells nothing. -/
theorem Registry.Plain.tells_perform {r : Registry} (h : r.Plain) (hmap : ¬ r.Maps name)
    (henv : env.helper? = r.find?) (hpartials : ∀ part, ctx.partial? part = none)
    (hok : ((Stage.call name args).perform env ctx input).result = .ok flow) :
    r.flow? ctx.options ctx.path name args input = some flow
      ∧ ((Stage.call name args).perform env ctx input).Tells flow [] := by
  obtain ⟨helper, hfind, hvalue⟩ := exists_of_perform_call hok
  have halone := h.answersAlone (henv ▸ hfind) hmap
  constructor
  · have hbare := halone.value ctx hpartials args input
    rw [Registry.flow?, ← henv, hfind]
    show (helper (.bare ctx.options ctx.path) args input).value.flow? = some flow
    rw [← hbare, hvalue]
    rfl
  · refine tells_call hfind hvalue (halone.sound ctx hpartials args input) ?_
    rw [halone.silent ctx hpartials args input]

end Stage

namespace Helper

theorem mapM_eq_some_of_map {α : Type} {f : α → Option Json} {xs : List α} {values : List Json}
    (h : xs.map f = values.map some) : xs.mapM f = some values := by
  have hid : ∀ values : List Json, (values.map some).mapM id = some values := by
    intro values
    induction values with
    | nil => rfl
    | cons value values ih => simp_all
  rw [← hid, ← h, List.mapM_map]
  rfl

variable {ctx : HelperContext} {count : Nat} {run : Json → Run Json} {value? : Json → Option Json}
  {told : Json → List Account} {aggregate : Json} (hobserved : ctx.observed = true)
  (htasks : ∀ element, ctx.runRemaining .task count element = Ending.ofRun (run element))
  (hruns : ∀ element, (run element).MayTell (value? element) (told element))

include hobserved htasks hruns

/-- The elements tell what they tell when they succeed, and one account each is added. -/
theorem tells_runEach {inputs values : List Json}
    (hok : (runEach ctx count inputs).result = .ok values) :
    inputs.map value? = values.map some
      ∧ (runEach ctx count inputs).Tells values
          (Account.ofValues ("map:" ++ ctx.path.display) (inputs.map value?)
            ++ inputs.flatMap told) := by
  have hall : (elements ctx count inputs).tasks = inputs.map fun x => Ending.ofRun (run x) :=
    List.map_congr_left fun element _ => htasks element
  exact Batch.tells_of_collectAlong hall hobserved rfl (Batch.completes_order _)
    (fun element _ => hruns element) hok

theorem tells_mapElements {input : Json}
    (hok : (mapElements ctx count input).result = .ok aggregate) :
    input.mapElements? value? = some aggregate
      ∧ (mapElements ctx count input).Tells aggregate
          (Account.ofValues ("map:" ++ ctx.path.display) (input.elements.map value?)
            ++ input.elements.flatMap told) := by
  cases input with
  | array items =>
    obtain ⟨values, hvalues, haggregate⟩ := Run.result_bind_eq_ok_iff.mp hok
    obtain rfl := Except.ok.inj haggregate
    obtain ⟨hmap, htells⟩ := tells_runEach hobserved htasks hruns hvalues
    refine ⟨?_, Run.Tells.perm (Run.Tells.bind htells (Run.Tells.pure _)) ?_⟩
    · rw [Json.mapElements?, mapM_eq_some_of_map hmap]
      rfl
    · simp [Json.elements, Json.elements?]
  | object members =>
    obtain ⟨values, hvalues, haggregate⟩ := Run.result_bind_eq_ok_iff.mp hok
    obtain rfl := Except.ok.inj haggregate
    obtain ⟨hmap, htells⟩ := tells_runEach hobserved htasks hruns hvalues
    refine ⟨?_, Run.Tells.perm (Run.Tells.bind htells (Run.Tells.pure _)) ?_⟩
    · rw [Json.mapElements?, ← zip_keys_mapM, mapM_eq_some_of_map hmap]
      rfl
    · simp [Json.elements, Json.elements?]
  | null | bool | number | string => simp [mapElements] at hok

/-- `map` tells what its elements tell, and one account for each of them. -/
theorem tells_perform_map {env : Environment} {name : String} {args : List String} {input : Json}
    {flow : Flow} (hmap : env.helper? name = some map)
    (hcount : (boundary? ctx.remaining).getD ctx.remaining.length = count)
    (hok : ((Stage.call name args).perform env ctx input).result = .ok flow) :
    ∃ aggregate, mapAnswer ctx.remaining aggregate = flow
      ∧ input.mapElements? value? = some aggregate
      ∧ ((Stage.call name args).perform env ctx input).Tells flow
          (Account.ofValues ("map:" ++ ctx.path.display) (input.elements.map value?)
            ++ input.elements.flatMap told) := by
  obtain ⟨helper, hfind, hvalue⟩ := exists_of_perform_call hok
  obtain rfl : map = helper := Option.some.inj (hmap.symm.trans hfind)
  obtain ⟨aggregate, haggregate, rfl⟩ : ∃ aggregate,
      (mapElements ctx count input).result = .ok aggregate
        ∧ mapAnswer ctx.remaining aggregate = flow := by
    rw [value_map, hcount] at hvalue
    cases hresult : (mapElements ctx count input).result with
    | ok aggregate =>
      exact ⟨aggregate, rfl, by simpa [hresult, Outcome.ofResult, Except.map] using hvalue⟩
    | error e => simp [hresult, Outcome.ofResult, Except.map] at hvalue
  obtain ⟨helements, htells⟩ := tells_mapElements hobserved htasks hruns haggregate
  have hrun : (mapRun ctx input).Tells (mapAnswer ctx.remaining aggregate)
      (Account.ofValues ("map:" ++ ctx.path.display) (input.elements.map value?)
        ++ input.elements.flatMap told) := by
    rw [mapRun, hcount]
    refine Run.Tells.perm (Run.Tells.bind htells
      (Run.Tells.bind (Run.Tells.log _) (Run.Tells.pure _))) ?_
    simp
  refine ⟨aggregate, rfl, helements, tells_call hmap hvalue ?_ ?_⟩
  · rw [map_eq_ofRun, script_ofRun]
    exact hrun.sound
  · rw [map_eq_ofRun, script_ofRun]
    exact hrun.told

end Helper

/-! ### Chains -/

/-- Somebody listens to the helpers of a registry, and there are no partials. -/
structure Environment.Listens (env : Environment) (r : Registry) (options : Json) : Prop where
  helpers : env.helper? = r.find?
  options : env.options = options
  observed : env.observed = true
  partials : ∀ part, env.partial? part = none

theorem Environment.Listens.runBy {env : Environment} {r : Registry} {options : Json}
    (h : env.Listens r options) (runner : Runner) :
    ({ env with runner } : Environment).Listens r options :=
  ⟨h.helpers, h.options, h.observed, h.partials⟩

/-- When a run succeeds, some stages give its value for an input, and it tells what is to
be heard of them. -/
def Registry.Describes (r : Registry) [DecidablePred r.Maps] (options : Json) (path : Path)
    (stages : List Stage) (input : Json) (run : Run Json) : Prop :=
  run.MayTell (r.gives options path stages input) (r.accounts options path stages input)

namespace Binding

variable {r : Registry} [DecidablePred r.Maps] {options : Json} {env : Environment} {b : Binding}
  {stop cursor : Nat} {stages : List Stage} {input value : Json}

theorem describes_pure (path : Path) (input : Json) :
    r.Describes options path [] input (pure input) := by
  intro value hok
  obtain rfl := Except.ok.inj hok
  rw [Registry.gives, Registry.accounts, Registry.mappings]
  exact ⟨rfl, .pure input⟩

theorem tells_giveWay (env : Environment) (b : Binding) (stop cursor : Nat) :
    (b.giveWay env stop cursor).Tells () [] := by
  rw [giveWay]
  split
  · exact Run.Tells.bind (Run.Tells.note rfl) (Run.Tells.lift _ ⟨trivial, trivial⟩)
  · exact .pure ()

section Behind

variable (hlater : ∀ next, cursor < next → ∀ value,
  r.Describes options b.path (b.slice next stop) value (b.runFrom env stop next value))

include hlater

/-- What is behind a stage goes on as the flow says. -/
theorem describes_continueFrom :
    (∀ value, r.Describes options b.path (b.slice (cursor + 1) stop) value
        (b.continueFrom env stop cursor (.next value)))
      ∧ (∀ value count, r.Describes options b.path ((b.slice (cursor + 1) stop).drop count) value
        (b.continueFrom env stop cursor (.skip value count)))
      ∧ ∀ value, r.Describes options b.path [] value
        (b.continueFrom env stop cursor (.exit value)) := by
  refine ⟨?_, ?_, ?_⟩
  · intro value
    exact Run.MayTell.andThen (tells_giveWay env b stop _) (hlater _ (by omega) value)
  · intro value count
    rw [drop_slice]
    exact Run.MayTell.andThen (tells_giveWay env b stop _) (hlater _ (by omega) value)
  · intro value
    exact Run.MayTell.andThen (.log _) (describes_pure b.path value)

/-- Behind a `map` the chain goes on at the first boundary, or it ends. -/
theorem describes_mapAnswer (aggregate : Json) :
    r.Describes options b.path
      ((b.slice (cursor + 1) stop).dropWhile (! Helper.isBoundary ·)) aggregate
      (b.continueFrom env stop cursor (Helper.mapAnswer (b.slice (cursor + 1) stop) aggregate)) := by
  obtain ⟨_, hskip, hexit⟩ := describes_continueFrom hlater
  have hlength := Helper.length_takeWhile_not_isBoundary (b.slice (cursor + 1) stop)
  rw [← drop_length_takeWhile, hlength, Helper.mapAnswer]
  cases Helper.boundary? (b.slice (cursor + 1) stop) with
  | some k => exact hskip aggregate k
  | none =>
    rw [Option.getD_none, List.drop_length]
    exact hexit aggregate

/-- A call with what is behind it, when the stages that it may run itself are as they
should be, and so is what comes later. -/
theorem describes_call (hplain : r.Plain) (henv : env.Listens r options) (hcursor : cursor < stop)
    {front : List Stage} {run : Json → Run Json}
    (hfront : (b.slice (cursor + 1) stop).takeWhile (! Helper.isBoundary ·) = front)
    (htasks : ∀ element,
      b.runRemaining env stop cursor .task front.length element = Ending.ofRun (run element))
    (hruns : ∀ element, r.Describes options b.path front element (run element))
    (name : String) (args : List String) (input : Json) :
    r.Describes options b.path (.call name args :: b.slice (cursor + 1) stop) input
      ((Stage.call name args).perform env
          (b.contextAt env stop cursor (b.runRemaining env stop cursor)) input
        >>= b.continueFrom env stop cursor) := by
  let ctx := b.contextAt env stop cursor (b.runRemaining env stop cursor)
  have hremaining : ctx.remaining = b.slice (cursor + 1) stop :=
    congrArg (b.slice · stop) (Nat.min_eq_left hcursor)
  intro value hok
  obtain ⟨flow, hperform, hcontinue⟩ := Run.result_bind_eq_ok_iff.mp hok
  by_cases hmap : r.Maps name
  · have hcount : (Helper.boundary? ctx.remaining).getD ctx.remaining.length = front.length := by
      rw [← Helper.length_takeWhile_not_isBoundary, hremaining, hfront]
    have helements (element : Json) :
        ctx.runRemaining .task front.length element = Ending.ofRun (run element) := htasks element
    -- The flow of the call leads to the boundary, or to the end.
    obtain ⟨aggregate, hflow, hgiven, htells⟩ := Helper.tells_perform_map henv.observed helements
      hruns (henv.helpers ▸ hmap) hcount hperform
    rw [hremaining] at hflow
    rw [← hflow] at hcontinue
    obtain ⟨hgives, hbehind⟩ := describes_mapAnswer hlater aggregate value hcontinue
    rw [hflow] at hbehind
    rw [← hfront] at hgiven htells
    rw [Registry.accounts_of_maps hmap args hgiven, Registry.gives, if_pos hmap, hgiven]
    exact ⟨hgives, htells.bind hbehind⟩
  · obtain ⟨hflow, htells⟩ := hplain.tells_perform hmap henv.helpers henv.partials hperform
    obtain ⟨hnext, hskip, hexit⟩ := describes_continueFrom hlater
    have hsame : r.flow? options b.path name args input = some flow := henv.options ▸ hflow
    rw [Registry.gives, Registry.accounts, Registry.mappings, if_neg hmap, if_neg hmap, hsame]
    cases flow with
    | next next =>
      obtain ⟨hgives, hbehind⟩ := hnext next value hcontinue
      exact ⟨hgives, htells.bind hbehind⟩
    | skip next count =>
      obtain ⟨hgives, hbehind⟩ := hskip next count value hcontinue
      exact ⟨hgives, htells.bind hbehind⟩
    | exit last =>
      obtain ⟨hgives, hbehind⟩ := hexit last value hcontinue
      rw [Registry.gives, Registry.accounts, Registry.mappings] at *
      exact ⟨hgives, htells.bind hbehind⟩

end Behind

/-- Running stages gives what these stages give, and tells what is to be heard of them. -/
theorem tells_runFrom (hplain : r.Plain) (henv : env.Listens r options)
    (hb : b.stages.length < Word.bound) (hstop : stop ≤ b.stages.length) (input : Json) :
    r.Describes options b.path (b.slice cursor stop) input (b.runFrom env stop cursor input) := by
  -- What a stage runs itself lies behind it, nearer to the stop.
  induction hn : stop - cursor using Nat.strongRecOn generalizing env stop cursor input with
  | ind n ih =>
    by_cases hcursor : stop ≤ cursor
    · rw [runFrom_of_le hcursor, slice_eq_nil hcursor]
      exact describes_pure b.path input
    · have hlt : cursor < stop := by omega
      have hlater (next : Nat) (hnext : cursor < next) (value : Json) :
          r.Describes options b.path (b.slice next stop) value (b.runFrom env stop next value) :=
        ih (stop - next) (by omega) henv hstop value rfl
      have hs := List.getElem?_eq_getElem (show cursor < b.stages.length by omega)
      generalize b.stages[cursor] = stage at hs
      rw [runFrom_eq hlt hs, slice_eq_cons hlt hs]
      cases stage with
      | literal value =>
        have hnext := (describes_continueFrom hlater).1 value
        intro last hok
        rw [Registry.gives, Registry.accounts, Registry.mappings]
        exact hnext last hok
      | data source =>
        have hnext := (describes_continueFrom hlater).1 (source.resolve input)
        intro last hok
        rw [Registry.gives, Registry.accounts, Registry.mappings]
        exact hnext last hok
      | call name args =>
        have hlength := b.length_slice (cursor + 1) stop hstop
        have hbehind : behind stop cursor = cursor + 1 := Nat.min_eq_left hlt
        -- The stages in front of the first boundary, which a `map` runs for the elements.
        obtain ⟨front, hfront⟩ :
            ∃ front, (b.slice (cursor + 1) stop).takeWhile (! Helper.isBoundary ·) = front :=
          ⟨_, rfl⟩
        have hcount := Helper.getD_boundary?_le (b.slice (cursor + 1) stop)
        rw [← Helper.length_takeWhile_not_isBoundary, hfront] at hcount
        have hclipped := clippedStop_le stop (behind stop cursor) front.length
        have hslice : b.slice (behind stop cursor)
            (clippedStop stop (behind stop cursor) front.length) = front := by
          rw [slice_clippedStop b hlt, ← hfront]
          exact (List.prefix_iff_eq_take.mp (List.takeWhile_prefix _)).symm
        have htasks (element : Json) :
            b.runRemaining env stop cursor .task front.length element
              = Ending.ofRun (b.runFrom { env with runner := .task }
                  (clippedStop stop (behind stop cursor) front.length) (behind stop cursor)
                    element) :=
          runRemaining_of_lt (by omega) env b .task element
        refine describes_call hlater hplain henv hlt hfront htasks ?_ name args input
        intro element
        have hruns := ih (clippedStop stop (behind stop cursor) front.length - behind stop cursor)
          (by omega) (henv.runBy .task) (Nat.le_trans hclipped hstop) element rfl
        rwa [hslice] at hruns

/-- The chain of a binding gives what its stages give for the data of a render, and tells
what is to be heard of them. -/
theorem describes_evaluate (hplain : r.Plain) (henv : env.Listens r options)
    (hb : b.stages.length < Word.bound) (data : Json) :
    r.Describes options b.path b.stages data (b.evaluate env data) := by
  have hcontinue (value : Json) : r.Describes options b.path (b.stages.drop 1) value
      (evaluate.continueWith env b value) := by
    have hslice : b.slice 1 b.stages.length = b.stages.drop 1 := by
      rw [slice, List.take_length]
    rw [evaluate.continueWith, runRange, Nat.min_self, ← hslice]
    exact Run.MayTell.andThen (tells_giveWay env b _ _)
      (tells_runFrom hplain henv hb (Nat.le_refl _) value)
  rw [evaluate]
  cases hstages : b.stages with
  | nil => exact describes_pure b.path data
  | cons stage rest =>
    rw [hstages, List.drop_one, List.tail_cons] at hcontinue
    cases stage with
    | call name args =>
      intro value hok
      simp at hok
    | literal value =>
      intro last hok
      rw [Registry.gives, Registry.accounts, Registry.mappings]
      exact hcontinue value last hok
    | data path =>
      intro last hok
      rw [Registry.gives, Registry.accounts, Registry.mappings]
      exact hcontinue (path.resolve data) last hok

end Binding

/-! ### Renders -/

namespace Template

variable {e : Engine} {document options data doc : Json} {order : List Nat}

/-- Somebody listens in a template without partials that an observing engine compiles. -/
theorem listens_environment (hobserved : e.observed = true) (hpartials : e.partials = []) :
    (e.template document options).environment.Listens e.helpers options := by
  refine ⟨rfl, rfl, hobserved, ?_⟩
  intro part
  show (renderers e.partials).find? part = none
  rw [hpartials]
  rfl

/-- Without partials an engine with another configuration renders the same documents. -/
theorem toOption_renderAlong_withConfig (e : Engine) (config : Config) (hpartials : e.partials = [])
    (hdetermined : e.helpers.Determined) (document options data : Json) {order : List Nat}
    (ho : (((e.withConfig config).template document options).batch data).Completes order) :
    (((e.withConfig config).template document options).renderAlong data order).result.toOption
      = ((e.template document options).render data).result.toOption := by
  have hnone (name : String) : e.partials.find? name = none := by
    rw [hpartials]
    rfl
  have halike : (e.template document options).Alike
      ((e.withConfig config).template document options) := by
    refine .mk ⟨rfl, rfl, rfl, rfl⟩ (fun _ => rfl) ?_
    intro name t t' hleft
    simp [hnone] at hleft
  have hthroughout : (e.template document options).Throughout (·.helpers.Determined) := by
    refine .mk hdetermined ?_
    intro name t hfind
    simp [hnone] at hfind
  obtain ⟨hscene, henv⟩ := halike.agrees hthroughout
  rw [render_eq_renderAlong]
  exact (Scene.toOption_renderAlong_congr hscene.skeleton hscene.bindings henv data
    (Batch.completes_order _) ho).symm

/-- A render that gives a document tells what is to be heard, in whatever order the
bindings complete. -/
theorem tells_renderAlong [DecidablePred e.helpers.Maps] (h : document.WellFormed)
    (hobserved : e.observed = true) (hpartials : e.partials = []) (hplain : e.helpers.Plain)
    (hstages : ∀ b ∈ Binding.ofTemplate document, b.stages.length < Word.bound)
    (ho : ((e.template document options).batch data).Completes order)
    (hok : ((e.template document options).renderAlong data order).result = .ok doc) :
    ((e.template document options).renderAlong data order).Tells doc
      (e.accounts document options data doc) := by
  let t := e.template document options
  have hchains : ∀ b ∈ Binding.ofTemplate document,
      e.helpers.Describes options b.path b.stages data (b.evaluate t.environment data) := by
    intro b hb
    exact Binding.describes_evaluate hplain (listens_environment hobserved hpartials)
      (hstages b hb) data
  -- What a chain gives is what stands at the path of its binding.
  have hwritten : ∀ b ∈ Binding.ofTemplate document,
      doc.at? b.path = e.helpers.gives options b.path b.stages data := by
    intro b hb
    have hsubstitutes := renderAlong_substitutes h rfl rfl ho
    rw [hok] at hsubstitutes
    obtain ⟨value, hvalue, hat⟩ := at?_of_substitutes h hsubstitutes hb
    rw [hat, (hchains b hb value hvalue).1]
  have hresult := hok
  rw [result_renderAlong] at hresult
  cases hcollect : ((t.batch data).collectAlong order).result with
  | error error =>
    rw [hcollect] at hresult
    simp [Except.bind] at hresult
  | ok values =>
    rw [hcollect] at hresult
    obtain ⟨_, htells⟩ := Batch.tells_of_collectAlong rfl hobserved rfl ho hchains hcollect
    refine Run.Tells.perm (Run.Tells.bind (.log _) (Run.Tells.bind (htells.tryCatch _)
      (Run.Tells.bind (.ofExcept hresult) (Run.Tells.bind (.log _) (.pure doc))))) ?_
    rw [Engine.accounts, List.map_congr_left hwritten]
    simp only [List.nil_append, List.append_nil]
    exact .refl _

end Template

/-! ### Engines -/

namespace Engine

/-- Whoever observes a render hears of every binding, and of every element that an execution of
`map` goes through, once each and of nothing else; under every configuration, and in
every order in which the bindings may complete. -/
theorem observer_hears_everything (e : Engine) [DecidablePred e.helpers.Maps]
    (document options data doc : Json) (h : document.WellFormed) (hobserved : e.observed = true)
    (hpartials : e.partials = []) (hplain : e.helpers.Plain)
    (hstages : ∀ b ∈ Binding.ofTemplate document, b.stages.length < Word.bound)
    (hok : ((e.template document options).render data).result = .ok doc) :
    ((e.template document options).render data).heard.Perm (e.accounts document options data doc)
      ∧ ∀ config order, let t := (e.withConfig config).template document options
          (t.batch data).Completes order →
            (t.renderAlong data order).result = .ok doc
              ∧ (t.renderAlong data order).heard.Perm (e.accounts document options data doc) := by
  have hhears : ∀ config order, let t := (e.withConfig config).template document options
      (t.batch data).Completes order → (t.renderAlong data order).result = .ok doc
        ∧ (t.renderAlong data order).heard.Perm (e.accounts document options data doc) := by
    intro config order t ho
    have hsame : (t.renderAlong data order).result = .ok doc := by
      have hagree := Template.toOption_renderAlong_withConfig e config hpartials hplain.determined
        document options data ho
      rw [← toOption_eq_some_iff, hagree, hok]
      rfl
    -- The configuration has no part in which helper is `map`.
    let _ : DecidablePred (e.withConfig config).helpers.Maps :=
      inferInstanceAs (DecidablePred e.helpers.Maps)
    have htells := Template.tells_renderAlong (e := e.withConfig config) h hobserved hpartials
      hplain hstages ho hsame
    exact ⟨hsame, htells.heard⟩
  refine ⟨?_, hhears⟩
  have hrender := hhears e.config _ (Batch.completes_order _)
  rw [Template.render_eq_renderAlong]
  exact hrender.2

/-- A template with one `map` inside another. -/
def gridDocument : Json := .object [("grid", .string "\x60grid | map | map | slow\x60")]

/-- Rows of unequal length. -/
def gridData : Json :=
  .object [("grid", .array [.array [.null, .bool true], .array [], .array [.bool false]])]

/-- An observing engine with a helper that takes some time. -/
def gridEngine : Engine := ⟨Template.slowRegistry, [], .standard, some .standard⟩

theorem find?_own_gridEngine {name : String} {helper : Helper}
    (h : gridEngine.helpers.own.find? name = some helper) :
    name = "slow" ∧ helper = .ofDelayed (fun _ => 5) fun _ input => .ok (.array [input]) := by
  simp only [gridEngine, Template.slowRegistry, Registry.register, Registry.initial, Entries.put,
    Entries.find?] at h
  split at h
  next hname => exact ⟨hname.symm, (Option.some.inj h).symm⟩
  next => simp at h

theorem maps_gridEngine_iff (name : String) : gridEngine.helpers.Maps name ↔ name = "map" := by
  refine Registry.maps_iff ?_ name
  intro name helper hfind
  obtain ⟨rfl, rfl⟩ := find?_own_gridEngine hfind
  exact ⟨by decide, Helper.ne_map_of_value (.bare .null []) [] rfl⟩

instance : DecidablePred gridEngine.helpers.Maps :=
  fun name => decidable_of_iff (name = "map") (maps_gridEngine_iff name).symm

theorem plain_gridEngine : gridEngine.helpers.Plain := by
  intro name helper hfind
  obtain ⟨rfl, rfl⟩ := find?_own_gridEngine hfind
  exact .inl ⟨Helper.determined_ofDelayed _ _, Helper.discreet_ofDelayed _ _⟩

/-- The `map` inside runs once for each row, the one without elements included. -/
theorem observer_hears_grid : gridDocument.WellFormed ∧ gridEngine.observed = true
    ∧ gridEngine.partials = [] ∧ gridEngine.helpers.Plain
    ∧ (∀ b ∈ Binding.ofTemplate gridDocument, b.stages.length < Word.bound)
    ∧ ∃ rows, ((gridEngine.template gridDocument .null).render gridData).result
        = .ok (.object [("grid", rows)])
      ∧ ((gridEngine.template gridDocument .null).render gridData).heard.Perm
        [⟨"render", 0, true, some rows, 1⟩,
          ⟨"map:grid", 0, true, some (.array [.array [.null], .array [.bool true]]), 3⟩,
          ⟨"map:grid", 1, true, some (.array []), 3⟩,
          ⟨"map:grid", 2, true, some (.array [.array [.bool false]]), 3⟩,
          ⟨"map:grid", 0, true, some (.array [.null]), 2⟩,
          ⟨"map:grid", 1, true, some (.array [.bool true]), 2⟩,
          ⟨"map:grid", 0, true, some (.array [.bool false]), 1⟩] := by
  let rows : Json := .array [.array [.array [.null], .array [.bool true]], .array [],
    .array [.array [.bool false]]]
  have hdocument : gridDocument.WellFormed :=
    Json.wellFormed_object_texts (List.pairwise_singleton _ _) (by decide)
  have hstages : ∀ b ∈ Binding.ofTemplate gridDocument, b.stages.length < Word.bound := by
    have hbindings : Binding.ofTemplate gridDocument = [⟨[.name "grid"], "grid | map | map | slow",
        [.data ⟨["grid"]⟩, .call "map" [], .call "map" [], .call "slow" []]⟩] := by
      cbv
    simp [hbindings, Word.bound]
  have hrender : ((gridEngine.template gridDocument .null).render gridData).result
      = .ok (.object [("grid", rows)]) := by
    cbv
  have hheard := (observer_hears_everything gridEngine gridDocument .null gridData _ hdocument rfl
    rfl plain_gridEngine hstages hrender).1
  exact ⟨hdocument, rfl, rfl, plain_gridEngine, hstages, rows, hrender,
    hheard.trans (.of_eq (by cbv))⟩

end Engine

end DocTemplate
