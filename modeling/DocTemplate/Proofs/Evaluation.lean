/-
Evaluating stages by their structure.

`evalStages` takes the stages of a chain as a list and goes down this list; it
knows of no cursor and no stop, and of no batch either.  A `map` cuts what is
behind it at the first boundary, evaluates the front part on every element of
the collection that comes in, and goes on with the rest on the collection of
the results.

* `Binding.toOption_runFrom` — running stages with a cursor gives what evaluating
  them gives, or both fail;
* `Helper.toOption_map` — what `map` answers, in terms of the elements;
* `Batch.toOption_collectAlong` — collecting fails when some task fails.

Helpers other than `map` may do anything but look at the stages behind them
(`Helper.IgnoresRemaining`).

Whole runs are evaluated here and in the modules above, with the equations of Mathlib in scope.
-/
import DocTemplate.Catalog.Steering
import DocTemplate.Helper.Registry
import DocTemplate.Proofs.Batch
import DocTemplate.Run.Chain
import Mathlib

namespace DocTemplate

open DocTemplate.Text

/-! ### The evaluator -/

/-- The collection of the same shape with what a function gives for every
element; a document that is no collection has none. -/
def Json.mapElements? (f : Json → Option Json) : Json → Option Json
  | .array items => (items.mapM f).map .array
  | .object members =>
    (members.mapM fun (member : String × Json) => (f member.2).map (member.1, ·)).map .object
  | _ => none

/-- The context of a stage with no stages behind it. -/
def Environment.lastContext (env : Environment) (path : Path) : HelperContext where
  runner := env.runner
  path := path
  options := env.options
  config := env.config
  observed := env.observed
  remaining := []
  runRemaining := fun _ _ input => pure (.value input)
  partial? := env.partial?
  resolves := fun name => (env.helper? name).isSome

/-- What the helper with a name answers to an input. -/
def Environment.answer (env : Environment) (path : Path) (name : String) (args : List String)
    (input : Json) : Except Error Flow :=
  match env.helper? name with
  | none => .error (.unknownHelper name path.display)
  | some helper => (helper (env.lastContext path) args input).value.located name path

/-- The value that stages give for an input; none when one of them fails. -/
def evalStages (env : Environment) (path : Path) : List Stage → Json → Option Json
  | [], input => some input
  | .literal value :: rest, _ => evalStages env path rest value
  | .data source :: rest, input => evalStages env path rest (source.resolve input)
  | .call name args :: rest, input =>
    if name = "map" then do
      -- The elements are left to tasks.
      let aggregate ← input.mapElements? fun element =>
        evalStages { env with runner := .task } path (rest.takeWhile (! Helper.isBoundary ·)) element
      evalStages env path (rest.dropWhile (! Helper.isBoundary ·)) aggregate
    else
      match env.answer path name args input with
      | .ok (.next value) => evalStages env path rest value
      | .ok (.skip value count) => evalStages env path (rest.drop count) value
      | .ok (.exit value) => some value
      | .error _ => none
termination_by stages => stages.length
decreasing_by
  all_goals simp only [List.length_cons, List.length_drop]
  · omega
  · omega
  · exact Nat.lt_succ_of_le (List.takeWhile_sublist _).length_le
  · exact Nat.lt_succ_of_le (List.dropWhile_sublist _).length_le
  · omega
  · omega

/-! ### What helpers answer -/

/-- A helper whose answer does not hang on the stages behind its own. -/
def Helper.IgnoresRemaining (helper : Helper) : Prop :=
  ∀ (ctx : HelperContext) (remaining : List Stage)
    (runRemaining : Runner → Nat → Json → Timed (Ending Json)) (args : List String) (input : Json),
    (helper { ctx with remaining, runRemaining } args input).value = (helper ctx args input).value

/-- The helper `map` is the built-in one, and no other looks at the stages behind
its own. -/
structure Environment.Structural (env : Environment) : Prop where
  map : env.helper? "map" = some Helper.map
  others : ∀ name helper, name ≠ "map" → env.helper? name = some helper → helper.IgnoresRemaining

theorem Environment.Structural.byTask {env : Environment} (h : env.Structural) :
    ({ env with runner := .task } : Environment).Structural :=
  ⟨h.map, h.others⟩

theorem toOption_bind {α β : Type} (x : Except Error α) (f : α → Except Error β) :
    (x.bind f).toOption = x.toOption.bind fun a => (f a).toOption := by
  cases x <;> rfl

theorem toOption_eq_some_iff {α : Type} {x : Except Error α} {a : α} :
    x.toOption = some a ↔ x = .ok a := by
  cases x <;> simp [Except.toOption]

/-- All outcomes are results exactly when they are those of some values. -/
theorem mapM_toOption_eq_some_iff {α : Type} {outcomes : List (Except Error α)}
    {values : List α} : outcomes.mapM Except.toOption = some values ↔ outcomes = values.map .ok := by
  induction outcomes generalizing values with
  | nil => cases values <;> simp
  | cons outcome outcomes ih =>
    rw [List.mapM_cons]
    cases values with
    | nil => simp [Option.bind_eq_some_iff]
    | cons a values => simp [Option.bind_eq_some_iff, toOption_eq_some_iff, ih]

/-- Collecting gives all results, and nothing when some task fails. -/
theorem Batch.toOption_collectAlong {α : Type} {b : Batch α} {order : List Nat}
    (h : b.Completes order) :
    (b.collectAlong order).result.toOption = b.outcomes.mapM Except.toOption := by
  apply Option.ext
  intro values
  rw [toOption_eq_some_iff, mapM_toOption_eq_some_iff]
  exact Batch.collectAlong_eq_ok_iff h values

namespace Helper

theorem builtIn_cases {name : String} {helper : Helper} (h : builtIn.find? name = some helper) :
    helper = map ∨ helper = passOn ∨ name = "partial" ∧ helper = renderPartial := by
  simp only [builtIn, Entries.find?] at h
  grind

/-- What comes of the elements of a collection does not hang on the order in which
their tasks complete. -/
theorem toOption_collectAlong_elements (ctx : HelperContext) (count : Nat) (values : List Json)
    {order : List Nat} (h : (elements ctx count values).Completes order) :
    ((elements ctx count values).collectAlong order).result.toOption
      = values.mapM fun value => (ctx.runRemaining .task count value).value.value? := by
  rw [Batch.toOption_collectAlong h]
  simp [elements, Batch.outcomes, Ending.toOption_outcome, Function.comp_def]

theorem toOption_runEach (ctx : HelperContext) (count : Nat) (values : List Json) :
    (runEach ctx count values).result.toOption
      = values.mapM fun value => (ctx.runRemaining .task count value).value.value? :=
  toOption_collectAlong_elements ctx count values (Batch.completes_order _)

theorem zip_keys_mapM (f : Json → Option Json) (members : List (String × Json)) :
    ((members.map Prod.snd).mapM f).map (Entries.keys members).zip
      = members.mapM fun (member : String × Json) => (f member.2).map (member.1, ·) := by
  induction members with
  | nil => rfl
  | cons member members ih =>
    rw [List.mapM_cons, ← ih, List.map_cons, List.mapM_cons]
    cases f member.2 with
    | none => rfl
    | some value => cases (members.map Prod.snd).mapM f <;> rfl

theorem toOption_mapElements (ctx : HelperContext) (count : Nat) (input : Json) :
    (mapElements ctx count input).result.toOption
      = input.mapElements? fun value => (ctx.runRemaining .task count value).value.value? := by
  cases input with
  | array items =>
    simp only [mapElements, Run.result_bind, Run.result_pure, toOption_bind, toOption_runEach,
      Json.mapElements?]
    exact Option.map_eq_bind.symm
  | object members =>
    have hzip := zip_keys_mapM
      (fun value => (ctx.runRemaining .task count value).value.value?) members
    simp only [mapElements, Run.result_bind, Run.result_pure, toOption_bind, toOption_runEach,
      Json.mapElements?, ← hzip, Option.map_map]
    exact Option.map_eq_bind.symm
  | null | bool | number | string => rfl

theorem value_ofRun (f : HelperContext → List String → Json → Run Flow) (ctx : HelperContext)
    (args : List String) (input : Json) :
    (ofRun f ctx args input).value = .ofResult (f ctx args input).result := rfl

/-- What `map` answers with the collection of the results. -/
def mapAnswer (stages : List Stage) (aggregate : Json) : Flow :=
  match boundary? stages with
  | some k => .skip aggregate k
  | none => .exit aggregate

/-- The run of a `map`. -/
def mapRun (ctx : HelperContext) (input : Json) : Run Flow := do
  let aggregate ← mapElements ctx ((boundary? ctx.remaining).getD ctx.remaining.length) input
  Run.log (.elementsJoined ctx.path ((boundary? ctx.remaining).getD ctx.remaining.length)
    (boundary? ctx.remaining).isSome)
  return mapAnswer ctx.remaining aggregate

theorem map_eq_ofRun : map = ofRun fun ctx _ input => mapRun ctx input := by
  unfold map mapRun mapAnswer
  congr 1
  funext ctx args input
  cases boundary? ctx.remaining <;> rfl

theorem value_map (ctx : HelperContext) (args : List String) (input : Json) :
    (map ctx args input).value
      = .ofResult ((mapElements ctx ((boundary? ctx.remaining).getD ctx.remaining.length)
          input).result.map (mapAnswer ctx.remaining)) := by
  rw [map_eq_ofRun, value_ofRun]
  simp only [mapRun, Run.result_bind, Run.result_log, Run.result_pure]
  cases (mapElements ctx _ input).result <;> rfl

/-- `map` hands the collection of the results to the boundary, or ends the chain
with it where there is none. -/
theorem toOption_map (ctx : HelperContext) (args : List String) (input : Json) (name : String)
    (path : Path) :
    ((map ctx args input).value.located name path).toOption
      = (input.mapElements? fun value =>
            (ctx.runRemaining .task ((boundary? ctx.remaining).getD ctx.remaining.length)
              value).value.value?).map (mapAnswer ctx.remaining) := by
  rw [value_map, ← toOption_mapElements]
  cases (mapElements ctx _ input).result <;> rfl

/-- The stages that `map` takes are those in front of the first boundary. -/
theorem length_takeWhile_not_isBoundary (stages : List Stage) :
    (stages.takeWhile (! isBoundary ·)).length = (boundary? stages).getD stages.length := by
  induction stages with
  | nil => rfl
  | cons stage stages ih =>
    unfold boundary? at ih ⊢
    rw [List.takeWhile_cons, List.findIdx?_cons]
    cases isBoundary stage with
    | true => rfl
    | false =>
      rw [if_pos (by rfl), if_neg (by simp), List.length_cons, ih]
      cases stages.findIdx? isBoundary <;> rfl

theorem getD_boundary?_le (stages : List Stage) :
    (boundary? stages).getD stages.length ≤ stages.length := by
  rw [← length_takeWhile_not_isBoundary]
  exact (List.takeWhile_sublist _).length_le

end Helper

namespace Binding

variable {env : Environment} {b : Binding} {stop cursor : Nat}

/-! ### Parts of a chain -/

theorem length_slice (b : Binding) (first last : Nat) (h : last ≤ b.stages.length) :
    (b.slice first last).length = last - first := by
  simp [slice, Nat.min_eq_left h]

theorem slice_eq_cons {stage : Stage} (h : cursor < stop) (hs : b.stages[cursor]? = some stage) :
    b.slice cursor stop = stage :: b.slice (cursor + 1) stop := by
  have hget : (b.stages.take stop)[cursor]? = some stage := by rw [List.getElem?_take, if_pos h, hs]
  obtain ⟨hlt, hget⟩ := List.getElem?_eq_some_iff.mp hget
  rw [slice, List.drop_eq_getElem_cons hlt, hget]
  rfl

theorem slice_eq_nil (h : stop ≤ cursor) : b.slice cursor stop = [] := by
  rw [slice, List.drop_eq_nil_iff, List.length_take]
  exact Nat.le_trans (Nat.min_le_left _ _) h

theorem drop_slice (first last count : Nat) :
    (b.slice first last).drop count = b.slice (first + count) last := by
  rw [slice, slice, List.drop_drop]

theorem take_slice (first last count : Nat) :
    (b.slice first last).take count = b.slice first (min (first + count) last) := by
  rw [slice, slice, List.take_drop, List.take_take]

theorem slice_takeWhile (p : Stage → Bool) (first last : Nat) (h : last ≤ b.stages.length) :
    b.slice first (first + ((b.slice first last).takeWhile p).length)
      = (b.slice first last).takeWhile p := by
  have hlength : ((b.slice first last).takeWhile p).length ≤ last - first :=
    b.length_slice first last h ▸ (List.takeWhile_sublist _).length_le
  have htake := List.prefix_iff_eq_take.mp (List.takeWhile_prefix p (l := b.slice first last))
  by_cases hle : first ≤ last
  · rw [take_slice, Nat.min_eq_left (by omega)] at htake
    exact htake.symm
  · have hnil : b.slice first last = [] := slice_eq_nil (by omega)
    rw [hnil]
    exact slice_eq_nil (Nat.le_refl _)

theorem drop_length_takeWhile (p : Stage → Bool) (stages : List Stage) :
    stages.drop (stages.takeWhile p).length = stages.dropWhile p := by
  calc stages.drop (stages.takeWhile p).length
      = (stages.takeWhile p ++ stages.dropWhile p).drop (stages.takeWhile p).length := by
        rw [List.takeWhile_append_dropWhile]
    _ = stages.dropWhile p := List.drop_left

theorem slice_dropWhile (p : Stage → Bool) (first last : Nat) :
    b.slice (first + ((b.slice first last).takeWhile p).length) last
      = (b.slice first last).dropWhile p := by
  rw [← drop_slice, drop_length_takeWhile]

/-! ### Running with a cursor -/

theorem result_giveWay (env : Environment) (b : Binding) (stop cursor : Nat) :
    (b.giveWay env stop cursor).result = .ok () := by
  unfold giveWay
  split <;> rfl

/-- A flow moves the cursor to the next stage or past some more, or ends the
chain. -/
theorem result_continueFrom (env : Environment) (b : Binding) (stop cursor : Nat) (flow : Flow) :
    (b.continueFrom env stop cursor flow).result
      = match flow with
        | .next value => (b.runFrom env stop (cursor + 1) value).result
        | .skip value count => (b.runFrom env stop (cursor + 1 + count) value).result
        | .exit value => .ok value := by
  cases flow <;> simp only [continueFrom, Run.result_bind, result_giveWay] <;> rfl

theorem perform_call_none {env : Environment} {name : String} (h : env.helper? name = none)
    (ctx : HelperContext) (args : List String) (input : Json) :
    (Stage.call name args).perform env ctx input
      = throw (.unknownHelper name ctx.path.display) := by
  simp only [Stage.perform, h]

theorem perform_call_some {env : Environment} {name : String} {helper : Helper}
    (h : env.helper? name = some helper) (ctx : HelperContext) (args : List String) (input : Json) :
    (Stage.call name args).perform env ctx input
      = Run.note (.invoked ctx.path name args input) >>= fun _ =>
          ExceptT.lift (helper ctx args input) >>= fun outcome =>
            Run.ofExcept (outcome.located name ctx.path) := by
  simp only [Stage.perform, h]

theorem result_perform_call (env : Environment) (ctx : HelperContext) (name : String)
    (args : List String) (input : Json) :
    ((Stage.call name args).perform env ctx input).result
      = match env.helper? name with
        | none => .error (.unknownHelper name ctx.path.display)
        | some helper => (helper ctx args input).value.located name ctx.path := by
  rw [Stage.perform]
  cases env.helper? name <;> rfl

/-- A helper that does not look at the stages behind its own answers as if there
were none. -/
theorem result_perform_of_ne_map (henv : env.Structural) {name : String} (hname : name ≠ "map")
    (args : List String) (input : Json)
    (runRemaining : Runner → Nat → Json → Timed (Ending Json)) :
    ((Stage.call name args).perform env (b.contextAt env stop cursor runRemaining) input).result
      = env.answer b.path name args input := by
  rw [result_perform_call, Environment.answer]
  cases hhelper : env.helper? name with
  | none => rfl
  | some helper =>
    have := henv.others name helper hname hhelper (env.lastContext b.path)
      (b.slice (behind stop cursor) stop) runRemaining args input
    exact congrArg (Outcome.located name b.path) this

/-- A `map` runs the stages in front of the first boundary for every element, and
the chain goes on behind them. -/
theorem toOption_map_bind (hmap : env.helper? "map" = some Helper.map)
    (hb : b.stages.length < Word.bound) (hstop : stop ≤ b.stages.length) (hcursor : cursor < stop)
    (args : List String) (input : Json) {count : Nat}
    (hcount : ((b.slice (cursor + 1) stop).takeWhile (! Helper.isBoundary ·)).length = count) :
    ((Stage.call "map" args).perform env
        (b.contextAt env stop cursor (b.runRemaining env stop cursor)) input
      >>= b.continueFrom env stop cursor).result.toOption
      = (input.mapElements? fun element =>
          (b.runFrom { env with runner := .task } (cursor + 1 + count)
            (cursor + 1) element).result.toOption).bind
        fun aggregate => (b.runFrom env stop (cursor + 1 + count) aggregate).result.toOption := by
  have hbehind : behind stop cursor = cursor + 1 := Nat.min_eq_left hcursor
  have hlength := b.length_slice (cursor + 1) stop hstop
  rw [Helper.length_takeWhile_not_isBoundary] at hcount
  have hcount_le : cursor + 1 + count ≤ stop := by
    have hle := Helper.getD_boundary?_le (b.slice (cursor + 1) stop)
    rw [hcount, hlength] at hle
    omega
  -- The number of stages is a word, and so is the sum.
  have hruns (element : Json) : (b.runRemaining env stop cursor .task count element).value.value?
      = (b.runFrom { env with runner := .task } (cursor + 1 + count)
          (cursor + 1) element).result.toOption := by
    rw [runRemaining_of_lt (by omega), Ending.value?_ofRun, hbehind, clippedStop,
      Nat.min_eq_left hcount_le]
  rw [Run.result_bind, toOption_bind, result_perform_call, hmap]
  simp only [Helper.toOption_map]
  rw [Option.bind_map]
  simp only [contextAt, hbehind, hcount, hruns]
  congr 1
  funext aggregate
  cases hboundary : Helper.boundary? (b.slice (cursor + 1) stop) with
  | some k =>
    rw [hboundary, Option.getD_some] at hcount
    simp only [Function.comp_apply, Helper.mapAnswer, hboundary, result_continueFrom, hcount]
  | none =>
    rw [hboundary, Option.getD_none, hlength] at hcount
    simp only [Function.comp_apply, Helper.mapAnswer, hboundary, result_continueFrom]
    rw [runFrom_of_le (by omega)]
    rfl

/-- Running stages with a cursor gives what evaluating them gives; when one of
them fails, so does the run. -/
theorem toOption_runFrom (henv : env.Structural) (hb : b.stages.length < Word.bound)
    (hstop : stop ≤ b.stages.length) (input : Json) :
    (b.runFrom env stop cursor input).result.toOption
      = evalStages env b.path (b.slice cursor stop) input := by
  -- The cursor comes nearer to the stop with every stage, and the part that a
  -- `map` runs lies behind it.
  induction hn : stop - cursor using Nat.strongRecOn generalizing env stop cursor input with
  | ind n ih =>
    by_cases hcursor : stop ≤ cursor
    · rw [runFrom_of_le hcursor, slice_eq_nil hcursor, evalStages]
      rfl
    · have hlater (next : Nat) (hnext : cursor < next) (value : Json) :
          (b.runFrom env stop next value).result.toOption
            = evalStages env b.path (b.slice next stop) value :=
        ih (stop - next) (by omega) henv hstop value rfl
      have hlt : cursor < b.stages.length := by omega
      have hs := List.getElem?_eq_getElem hlt
      generalize b.stages[cursor] = stage at hs
      rw [runFrom_eq (by omega) hs, slice_eq_cons (by omega) hs]
      cases stage with
      | literal value =>
        rw [evalStages, ← hlater (cursor + 1) (by omega), Run.result_bind, Stage.perform]
        exact congrArg Except.toOption (result_continueFrom env b stop cursor (.next value))
      | data source =>
        rw [evalStages, ← hlater (cursor + 1) (by omega), Run.result_bind, Stage.perform]
        exact congrArg Except.toOption
          (result_continueFrom env b stop cursor (.next (source.resolve input)))
      | call name args =>
        rw [evalStages]
        split
        next hname =>
          subst hname
          have hfront := slice_takeWhile (! Helper.isBoundary ·) (cursor + 1) stop hstop
          have hback := b.slice_dropWhile (! Helper.isBoundary ·) (cursor + 1) stop
          have hlength : ((b.slice (cursor + 1) stop).takeWhile (! Helper.isBoundary ·)).length
              ≤ stop - (cursor + 1) :=
            b.length_slice (cursor + 1) stop hstop ▸ (List.takeWhile_sublist _).length_le
          rw [toOption_map_bind henv.map hb hstop (by omega) args input rfl, ← hback]
          congr 1
          · congr 1
            funext element
            rw [ih _ (by omega) henv.byTask (by omega) element rfl, hfront]
          · funext aggregate
            exact hlater _ (by omega) aggregate
        next hname =>
          rw [Run.result_bind, result_perform_of_ne_map henv hname, toOption_bind]
          cases env.answer b.path name args input with
          | error e => rfl
          | ok flow =>
            cases flow with
            | next value =>
              show (b.continueFrom env stop cursor (.next value)).result.toOption = _
              rw [result_continueFrom]
              exact hlater (cursor + 1) (by omega) value
            | skip value count =>
              show (b.continueFrom env stop cursor (.skip value count)).result.toOption = _
              rw [result_continueFrom]
              simp only [drop_slice]
              exact hlater (cursor + 1 + count) (by omega) value
            | exit value => rfl

/-- The stages of a range give what evaluating them gives, and fail when that
fails; there are no more stages than there are words. -/
theorem runRange_eq_ok_iff (henv : env.Structural) (hb : b.stages.length < Word.bound)
    (first last : Nat) (input result : Json) :
    (b.runRange env first last input).result = .ok result
      ↔ evalStages env b.path (b.slice first last) input = some result := by
  have hslice : b.slice first (min last b.stages.length) = b.slice first last := by
    rw [slice, slice, ← List.take_eq_take_min]
  rw [← toOption_eq_some_iff, runRange, toOption_runFrom henv hb (Nat.min_le_right _ _), hslice]

/-- The built-in helpers and one that skips stages. -/
def steeredEnvironment : Environment where
  runner := .foreground
  helper? := (Registry.initial.register "skip" Catalog.skip).find?
  options := .null
  config := .standard
  observed := false
  partial? := fun _ => none

theorem structural_steeredEnvironment : steeredEnvironment.Structural := by
  refine ⟨by cbv, ?_⟩
  intro name helper hname hfind
  have hcases : helper = Catalog.skip ∨ helper = Helper.passOn ∨ helper = Helper.renderPartial := by
    simp only [steeredEnvironment, Registry.find?, Registry.register, Registry.initial,
      Helper.builtIn, Entries.put, Entries.find?] at hfind
    grind
  rcases hcases with rfl | rfl | rfl
  · exact fun _ _ _ _ _ => rfl
  · exact fun _ _ _ _ _ => rfl
  · exact fun _ _ _ _ _ => rfl

/-- A chain with a `map` inside another; one of its stages skips an unknown helper. -/
def nestedChain : Binding where
  path := [.name "a"]
  expression := ""
  stages := [.call "map" [], .call "map" [], .data ⟨["n"]⟩, .call "skip" ["1"],
    .call "unknown" [], .call "reduce" [], .data ⟨["0"]⟩]

theorem runRange_nestedChain :
    steeredEnvironment.Structural ∧ nestedChain.stages.length < Word.bound
      ∧ (nestedChain.runRange steeredEnvironment 0 7
          (.array [.array [.object [("n", .bool true)], .null], .array []])).result
        = .ok (.array [.bool true, .null]) := by
  have hlength : nestedChain.stages.length < Word.bound := by decide
  refine ⟨structural_steeredEnvironment, hlength, ?_⟩
  rw [runRange_eq_ok_iff structural_steeredEnvironment hlength]
  cbv

end Binding

end DocTemplate
