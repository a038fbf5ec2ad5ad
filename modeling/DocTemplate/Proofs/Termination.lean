/-
What comes to its end.

A script is carried out to its end unless one of its joins waits for more than can come
(`Script.Sound`).  Nothing that is put together of computations that end waits for ever: not a
batch of them, not a chain of stages and not a render.  Of a helper no more is asked than that it
ends when all that it runs does (`Helper.Terminates`).

* `Helper.terminates_builtIn` — the built-in helpers end;
* `Binding.terminates_runFrom` — chains of helpers that end, by induction on how far it is to the
  stop;
* `Template.terminates_renderBy` — renders, from the innermost partials outwards;
* `Template.ends_of_terminates` — whoever renders such a template comes to the end;
* `Session.terminates_after` — the templates of a session, when what is registered there ends.
-/
import DocTemplate.Proofs.Ancestry
import DocTemplate.Proofs.Evaluation

namespace DocTemplate

/-! ### Computations -/

/-- Nothing in a computation waits for ever. -/
def Timed.Terminates {α : Type} (x : Timed α) : Prop := Script.Sound x.script

/-- A run does not wait for ever. -/
abbrev Run.Terminates {α : Type} (r : Run α) : Prop := r.timed.Terminates

section

variable {α β : Type}

namespace Timed

theorem Terminates.pure (a : α) : (Pure.pure a : Timed α).Terminates := trivial

theorem Terminates.bind {x : Timed α} {f : α → Timed β} (h : x.Terminates)
    (hf : ∀ a, (f a).Terminates) : (x >>= f).Terminates :=
  Script.sound_append.mpr ⟨h, hf x.value⟩

theorem Terminates.map {x : Timed α} (h : x.Terminates) (f : α → β) : (f <$> x).Terminates :=
  h.bind fun _ => .pure _

theorem Terminates.forM {f : α → Timed Unit} (h : ∀ a, (f a).Terminates) (as : List α) :
    (as.forM f).Terminates := by
  induction as with
  | nil => exact .pure _
  | cons a as ih => exact (h a).bind fun _ => ih

/-- Whoever carries such a computation out comes to its end, and only once. -/
theorem Terminates.ends {x : Timed α} (h : x.Terminates) (runner : Runner) :
    (Script.play runner x.script).countP (fun r => r.2.isEnded) = 1 :=
  Script.countP_isEnded runner h

end Timed

namespace Run.Terminates

theorem pure (a : α) : (Pure.pure a : Run α).Terminates := trivial

theorem throw (e : Error) : (MonadExcept.throw e : Run α).Terminates := trivial

theorem note (o : Observation) : (Run.note o).Terminates := ⟨trivial, trivial⟩

theorem ofExcept (r : Except Error α) : (Run.ofExcept r).Terminates := trivial

theorem lift {x : Timed α} (h : x.Terminates) : Run.Terminates (ExceptT.lift x) := h.map _

theorem bind {r : Run α} {f : α → Run β} (h : r.Terminates) (hf : ∀ a, (f a).Terminates) :
    (r >>= f).Terminates := by
  refine Timed.Terminates.bind h ?_
  intro result
  cases result with
  | ok a => exact hf a
  | error e => exact .pure _

theorem tryCatch {r : Run α} {handle : Error → Run α} (h : r.Terminates)
    (hhandle : ∀ e, (handle e).Terminates) :
    Run.Terminates (MonadExcept.tryCatch r handle) := by
  obtain ⟨value, script⟩ : Timed (Except Error α) := r
  cases value with
  | ok a => exact Script.sound_append.mpr ⟨h, trivial⟩
  | error e => exact Script.sound_append.mpr ⟨h, hhandle e⟩

theorem ending {r : Run α} (h : r.Terminates) : (Ending.ofRun r).Terminates := by
  refine Timed.Terminates.bind h ?_
  intro result
  cases result <;> exact .pure _

end Run.Terminates

end

/-! ### Batches -/

namespace Batch

variable {α : Type} {b : Batch α} {order : List Nat}

theorem terminates_runAlong (h : b.Completes order) (policy : Policy)
    (htasks : ∀ task ∈ b.tasks, task.Terminates) : (b.runAlong policy order).Terminates :=
  (h.sound_script policy htasks).1

theorem terminates_collectAlong (h : b.Completes order)
    (htasks : ∀ task ∈ b.tasks, task.Terminates) : (b.collectAlong order).Terminates :=
  Run.Terminates.bind (terminates_runAlong h .abort htasks) fun _ => .ofExcept _

theorem terminates_settle (b : Batch α) (htasks : ∀ task ∈ b.tasks, task.Terminates) :
    b.settle.Terminates := by
  refine (terminates_runAlong b.completes_order .settle htasks).bind ?_
  intro result
  cases result <;> exact .pure _

end Batch

/-! ### Helpers -/

/-- All that a helper can run in a context ends: the stages behind its own, and partials. -/
structure HelperContext.Terminates (ctx : HelperContext) : Prop where
  runs : ∀ runner count input, (ctx.runRemaining runner count input).Terminates
  partials : ∀ name render, ctx.partial? name = some render → ∀ data, (render data).Terminates

namespace Helper

/-- A helper ends when all that it runs does. -/
def Terminates (helper : Helper) : Prop :=
  ∀ ctx : HelperContext, ctx.Terminates → ∀ args input, (helper ctx args input).Terminates

theorem terminates_passOn : passOn.Terminates := fun _ _ _ _ => .pure _

theorem terminates_mapElements {ctx : HelperContext} (h : ctx.Terminates) (count : Nat)
    (input : Json) : (mapElements ctx count input).Terminates := by
  have heach (values : List Json) : (runEach ctx count values).Terminates := by
    refine Batch.terminates_collectAlong (Batch.completes_order _) ?_
    intro task htask
    obtain ⟨value, _, rfl⟩ := List.mem_map.mp htask
    exact h.runs .task count value
  cases input with
  | array items => exact (heach items).bind fun _ => .pure _
  | object members => exact (heach _).bind fun _ => .pure _
  | null | bool | number | string => exact .throw _

theorem terminates_map : map.Terminates := by
  intro ctx h args input
  refine Timed.Terminates.map ?_ _
  refine Run.Terminates.bind (terminates_mapElements h _ input) ?_
  intro aggregate
  refine Run.Terminates.bind (.note _) ?_
  intro _
  cases boundary? ctx.remaining <;> exact .pure _

theorem terminates_renderPartial : renderPartial.Terminates := by
  intro ctx h args input
  refine Timed.Terminates.map ?_ _
  show Run.Terminates (if input.isNull then _ else _)
  split
  · exact .pure _
  · cases args with
    | nil => exact .throw _
    | cons name args =>
      cases hfind : ctx.partial? name with
      | none =>
        simp only [hfind]
        exact .throw _
      | some render =>
        simp only [hfind]
        exact (h.partials name render hfind input).bind fun _ => .pure _

theorem terminates_builtIn {name : String} {helper : Helper}
    (h : builtIn.find? name = some helper) : helper.Terminates := by
  rcases builtIn_cases h with rfl | rfl | ⟨-, rfl⟩
  · exact terminates_map
  · exact terminates_passOn
  · exact terminates_renderPartial

end Helper

/-! ### Chains -/

/-- All helpers and partials that a chain finds end. -/
structure Environment.Terminates (env : Environment) : Prop where
  helpers : ∀ name helper, env.helper? name = some helper → helper.Terminates
  partials : ∀ name render, env.partial? name = some render → ∀ data, (render data).Terminates

namespace Binding

variable {env : Environment} {b : Binding}

theorem terminates_giveWay (env : Environment) (b : Binding) (stop cursor : Nat) :
    (b.giveWay env stop cursor).Terminates := by
  unfold giveWay
  split
  · exact Run.Terminates.bind (.note _) fun _ => .lift ⟨trivial, trivial⟩
  · exact .pure _

theorem terminates_perform (henv : env.Terminates) {ctx : HelperContext} (hctx : ctx.Terminates)
    (stage : Stage) (input : Json) : (stage.perform env ctx input).Terminates := by
  cases stage with
  | literal value => exact .pure _
  | data source => exact .pure _
  | call name args =>
    cases hfind : env.helper? name with
    | none =>
      rw [perform_call_none hfind]
      exact .throw _
    | some helper =>
      rw [perform_call_some hfind]
      have hcall := henv.helpers name helper hfind ctx hctx args input
      exact Run.Terminates.bind (.note _) fun _ => (Run.Terminates.lift hcall).bind fun _ =>
        .ofExcept _

/-- A chain whose helpers end comes to its end. -/
theorem terminates_runFrom (henv : env.Terminates) (b : Binding) (stop cursor : Nat)
    (input : Json) : (b.runFrom env stop cursor input).Terminates := by
  -- What a stage runs itself lies behind it, nearer to the stop.
  induction hn : stop - cursor using Nat.strongRecOn generalizing env stop cursor input with
  | ind n ih =>
    by_cases hcursor : stop ≤ cursor
    · rw [runFrom_of_le hcursor]
      exact .pure _
    · cases hs : b.stages[cursor]? with
      | none =>
        rw [runFrom_past_end (List.getElem?_eq_none_iff.mp hs)]
        exact .pure _
      | some stage =>
        have hlater (count : Nat) (value : Json) :
            (b.runFrom env stop (cursor + 1 + count) value).Terminates :=
          ih (stop - (cursor + 1 + count)) (by omega) henv stop _ value rfl
        have hremaining (runner : Runner) (count : Nat) (value : Json) :
            (b.runRemaining env stop cursor runner count value).Terminates := by
          unfold runRemaining
          split
          · have hnearer : clippedStop stop (behind stop cursor) count - behind stop cursor < n := by
              simp only [clippedStop, behind]
              omega
            have hrunner : Environment.Terminates { env with runner } :=
              ⟨henv.helpers, henv.partials⟩
            exact (ih _ hnearer hrunner _ _ value rfl).ending
          · exact .pure _
        rw [runFrom_eq (by omega) hs]
        refine Run.Terminates.bind (terminates_perform henv ⟨hremaining, henv.partials⟩ stage input) ?_
        intro flow
        cases flow with
        | next value => exact (terminates_giveWay env b stop _).bind fun _ => hlater 0 value
        | skip value count => exact (terminates_giveWay env b stop _).bind fun _ => hlater count value
        | exit value => exact Run.Terminates.bind (.note _) fun _ => .pure _

theorem terminates_evaluate (henv : env.Terminates) (b : Binding) (data : Json) :
    (b.evaluate env data).Terminates := by
  have hcontinue (value : Json) : (evaluate.continueWith env b value).Terminates :=
    (terminates_giveWay env b _ _).bind fun _ => terminates_runFrom henv b _ _ value
  unfold evaluate
  split
  · exact .pure _
  · exact .throw _
  · exact hcontinue _
  · exact hcontinue _

end Binding

/-! ### Renders -/

/-- All helpers of a registry end. -/
def Registry.Terminates (r : Registry) : Prop :=
  ∀ name helper, r.find? name = some helper → helper.Terminates

namespace Scene

variable {s : Scene} {partials : Entries Renderer}

theorem terminates_tasks (hhelpers : s.helpers.Terminates)
    (hpartials : ∀ name render, partials.find? name = some render → ∀ data, (render data).Terminates)
    (runner : Runner) (data : Json) : ∀ task ∈ (s.batch runner partials data).tasks,
      task.Terminates := by
  intro task htask
  obtain ⟨b, _, rfl⟩ := List.mem_map.mp htask
  have henv : (s.environment partials).Terminates := ⟨hhelpers, hpartials⟩
  exact (Binding.terminates_evaluate henv b data).ending

theorem terminates_render (hhelpers : s.helpers.Terminates)
    (hpartials : ∀ name render, partials.find? name = some render → ∀ data, (render data).Terminates)
    (runner : Runner) (data : Json) : (s.render runner partials data).Terminates := by
  have hcollect := Batch.terminates_collectAlong (Batch.completes_order _)
    (terminates_tasks hhelpers hpartials runner data)
  refine Run.Terminates.bind (.note _) fun _ => ?_
  refine Run.Terminates.bind (hcollect.tryCatch fun _ => ?_) fun _ => ?_
  · exact Run.Terminates.bind (.note _) fun _ => .throw _
  · exact Run.Terminates.bind (.ofExcept _) fun _ => Run.Terminates.bind (.note _) fun _ => .pure _

theorem terminates_settle (hhelpers : s.helpers.Terminates)
    (hpartials : ∀ name render, partials.find? name = some render → ∀ data, (render data).Terminates)
    (data : Json) : (s.settle partials data).Terminates := by
  have hsettle := Batch.terminates_settle _ (terminates_tasks hhelpers hpartials .foreground data)
  refine hsettle.bind fun _ => Timed.Terminates.bind (Timed.Terminates.forM ?_ _) fun _ => .pure _
  intro failure
  exact ⟨trivial, trivial⟩

end Scene

namespace Template

/-- What partials render ends when the templates do. -/
theorem terminates_renderers {partials : Entries Template}
    (h : ∀ name inner, partials.find? name = some inner → ∀ data,
      (inner.renderBy .task data).Terminates) (name : String) (render : Renderer)
    (hfind : (renderers partials).find? name = some render) (data : Json) :
    (render data).Terminates := by
  rw [find?_renderers] at hfind
  obtain ⟨inner, hinner, rfl⟩ := Option.map_eq_some_iff.mp hfind
  exact h name inner hinner data

/-- A template whose helpers end, with all partials that are nested in it, is rendered to the
end. -/
theorem terminates_renderBy {t : Template} (h : t.Throughout (·.helpers.Terminates))
    (runner : Runner) (data : Json) : (t.renderBy runner data).Terminates := by
  -- The induction goes from the innermost partials outwards.
  induction h generalizing runner data with
  | mk here below ih =>
    exact Scene.terminates_render here
      (terminates_renderers fun name inner hinner => ih name inner hinner .task) runner data

theorem terminates_settle {t : Template} (h : t.Throughout (·.helpers.Terminates)) (data : Json) :
    (t.settle data).Terminates := by
  cases h with
  | mk here below =>
    exact Scene.terminates_settle here (terminates_renderers fun name inner hinner =>
      terminates_renderBy (below name inner hinner) .task) data

/-- Whoever renders a template comes to the end, and only once; so does whoever gives account of
all its bindings. -/
structure Ends (t : Template) : Prop where
  render : ∀ runner data,
    (Script.play runner (t.renderBy runner data).timed.script).countP (fun r => r.2.isEnded) = 1
  settle : ∀ data,
    (Script.play .foreground (t.settle data).script).countP (fun r => r.2.isEnded) = 1

theorem ends_of_terminates {t : Template} (h : t.Throughout (·.helpers.Terminates)) : t.Ends :=
  ⟨fun runner data => (terminates_renderBy h runner data).ends runner,
    fun data => (terminates_settle h data).ends .foreground⟩

end Template

/-! ### Sessions -/

/-- The helper that an operation registers ends. -/
def Operation.Terminates : Operation → Prop
  | .register _ helper | .registerOn _ _ helper => helper.Terminates
  | _ => True

theorem Operation.Terminates.own {op : Operation} (h : op.Terminates) {name : String}
    {helper : Helper} (hown : op.ownHelper? name = some helper) : helper.Terminates := by
  unfold ownHelper? at hown
  split at hown
  · split at hown
    · exact Option.some.inj hown ▸ h
    · cases hown
  · cases hown

theorem Operation.Terminates.engine {op : Operation} (h : op.Terminates) {name : String}
    {helper : Helper} (hengine : op.engineHelper? name = some helper) : helper.Terminates := by
  unfold engineHelper? at hengine
  split at hengine
  · split at hengine
    · exact Option.some.inj hengine ▸ h
    · cases hengine
  · cases hengine

/-- The helpers of the templates behind a history end when all that were registered do. -/
theorem Session.terminates_after {past : List Operation} (hpast : ∀ op ∈ past, op.Terminates)
    {name : String} {t : Template} (ht : (after past).templates.find? name = some t) :
    t.Throughout (·.helpers.Terminates) := by
  refine throughout_after ?_ ht
  intro a hwithin name helper hfind
  obtain ⟨made, hmade⟩ := hwithin.compiled
  have hbefore (op : Operation) (hop : op ∈ a.before) : op.Terminates :=
    hpast op (hmade.mem (List.mem_cons_of_mem _ hop))
  rw [show a.template.scene.helpers = a.template.helpers from rfl, a.follows_template.helper,
    Option.or_eq_some_iff, Option.or_eq_some_iff] at hfind
  rcases hfind with (hown | ⟨-, hengine⟩) | ⟨-, hbuiltIn⟩
  · obtain ⟨op, hop, hregisters⟩ := List.exists_of_findSome?_eq_some hown
    exact (hpast op (hwithin.own op hop)).own hregisters
  · obtain ⟨op, hop, hregisters⟩ := List.exists_of_findSome?_eq_some hengine
    exact (hbefore op hop).engine hregisters
  · exact Helper.terminates_builtIn hbuiltIn

end DocTemplate
