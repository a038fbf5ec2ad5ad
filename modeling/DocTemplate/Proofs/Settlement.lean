/-
Rendering a template and settling it.

A render gives a document or the first failure; settling gives every binding its own
outcome.  Both run the same batch, the one under the policy that ends it with a failure, the
other under the one that does not, and so they see the bindings complete in the same order.

* `Template.settleAlong` — settling, the bindings completing in an order;
* `Template.Accords` — what a render and the outcomes of the bindings have to do with each
  other;
* `Template.render_accords_with_settle` — they have, for every order of completion, and for
  the one that the bindings do complete in.
-/
import DocTemplate.Proofs.Nesting
import DocTemplate.Proofs.Substitution

namespace DocTemplate

/-! ### Clean outcomes -/

theorem Settled.isClean_iff {α : Type} {s : Settled α} :
    s.isClean = true ↔ ∀ slot ∈ s.errors, slot = none := by
  rw [isClean, List.all_eq_true]
  constructor
  · intro h slot hslot
    exact Option.isNone_iff_eq_none.mp (h slot hslot)
  · intro h slot hslot
    rw [h slot hslot]
    rfl

namespace Batch

variable {α : Type} {b : Batch α} {order : List Nat}

/-- The outcomes of a batch are clean exactly when every task has given a value. -/
theorem isClean_settleAlong_iff (h : b.Completes order) :
    (b.settleAlong order).value.isClean = true ↔ ∃ values : List α, b.outcomes = values.map .ok := by
  rw [settleAlong_value h, Settled.isClean_iff]
  constructor
  · intro hclean
    refine exists_values_of_forall ?_
    intro outcome houtcome
    cases outcome with
    | ok a => exact ⟨a, rfl⟩
    | error e =>
      have hslot := hclean (some e) (List.mem_map.mpr ⟨.error e, houtcome, rfl⟩)
      simp at hslot
  · rintro ⟨values, hvalues⟩ slot hslot
    obtain ⟨outcome, houtcome, rfl⟩ := List.mem_map.mp hslot
    rw [hvalues] at houtcome
    obtain ⟨a, _, rfl⟩ := List.mem_map.mp houtcome
    rfl

end Batch

/-! ### Templates -/

namespace Template

variable (t : Template) (data : Json)

/-- The outcome of every binding of a template, the bindings completing in an order. -/
def settleAlong (order : List Nat) : Timed (Settled Json) := do
  let settled ← (t.batch data).settleAlong order
  (t.scene.failures settled).forM fun (path, e) => Timed.log (.bindingFailed path e)
  return settled

theorem settle_eq_settleAlong : t.settle data = t.settleAlong data (t.batch data).order := by
  cases t
  rfl

theorem value_settleAlong (order : List Nat) :
    (t.settleAlong data order).value = ((t.batch data).settleAlong order).value := rfl

/-- The outcomes of the bindings of a template accord with the result of a render, the
bindings completing in an order. -/
structure Accords (order : List Nat) (settled : Settled Json) (result : Except Error Json) :
    Prop where
  length_errors : settled.errors.length = t.bindings.length
  length_results : settled.results.length = t.bindings.length
  /-- Each binding has either a value or an error, which is what its chain gives. -/
  slots : ∀ (i : Nat) (b : Binding), t.bindings[i]? = some b →
    (∃ value, t.chain data b = .ok value
      ∧ settled.errors[i]? = some none ∧ settled.results[i]? = some (some value))
    ∨ ∃ e, t.chain data b = .error e
      ∧ settled.errors[i]? = some (some e) ∧ settled.results[i]? = some none
  ok_iff : (∃ doc, result = .ok doc) ↔ settled.isClean = true
  /-- A document is the skeleton with the value of each binding written at its path. -/
  document : ∀ doc, result = .ok doc → ∃ value : Binding → Json,
    settled.results = t.bindings.map (fun b => some (value b))
      ∧ writeAll t.skeleton (t.bindings.map fun b => (b.path, value b)) = .ok doc
      ∧ doc = t.skeleton.substitute value
  /-- A failure is that of the first binding to complete among those that fail. -/
  failure : settled.isClean = false → ∃ before i after e, order = before ++ i :: after
    ∧ (∀ j ∈ before, settled.errors[j]? = some none)
    ∧ settled.errors[i]? = some (some e) ∧ result = .error e

variable {t data} {order : List Nat}

theorem slots_settleAlong (h : (t.batch data).Completes order) {i : Nat} {b : Binding}
    (hb : t.bindings[i]? = some b) :
    (∃ value, t.chain data b = .ok value
      ∧ (t.settleAlong data order).value.errors[i]? = some none
      ∧ (t.settleAlong data order).value.results[i]? = some (some value))
    ∨ ∃ e, t.chain data b = .error e
      ∧ (t.settleAlong data order).value.errors[i]? = some (some e)
      ∧ (t.settleAlong data order).value.results[i]? = some none := by
  have houtcome : (t.batch data).outcomes[i]? = some (t.chain data b) := by
    rw [outcomes_batch, List.getElem?_map, hb]
    rfl
  rw [value_settleAlong, Batch.settleAlong_value h, List.getElem?_map, List.getElem?_map, houtcome]
  cases t.chain data b with
  | ok value => exact .inl ⟨value, rfl, rfl, rfl⟩
  | error e => exact .inr ⟨e, rfl, rfl, rfl⟩

/-- When all bindings of a compiled template have values, a render writes them. -/
theorem renderAlong_of_values (hcompiled : t.scene.Compiled) (h : (t.batch data).Completes order)
    {values : List Json} (hvalues : (t.batch data).outcomes = values.map .ok) :
    ∃ value : Binding → Json, values = t.bindings.map value
      ∧ writeAll t.skeleton (t.bindings.map fun b => (b.path, value b))
          = .ok (t.skeleton.substitute value)
      ∧ (t.renderAlong data order).result = .ok (t.skeleton.substitute value) := by
  have hbindings : t.bindings = Binding.ofTemplate t.skeleton := hcompiled.bindings
  obtain ⟨value, hvalue, _⟩ := Scene.exists_map_of_outcomes hvalues
  refine ⟨value, hvalue, ?_, ?_⟩
  · rw [hbindings]
    exact writeAll_ofTemplate value hcompiled.wellFormed
  · have hall : values = (Binding.ofTemplate t.skeleton).map value := by
      rw [← hbindings]
      exact hvalue
    rw [result_renderAlong, Batch.collectAlong_eq_ok h hvalues, hall]
    exact assemble_map value hcompiled.wellFormed rfl hbindings

/-- A binding that fails when all before it have given values fails the render. -/
theorem renderAlong_of_failure {before after : List Nat} {i : Nat} {e : Error}
    (h : (t.batch data).Completes (before ++ i :: after))
    (hbefore : ∀ j ∈ before, ∃ value, (t.batch data).outcomes[j]? = some (.ok value))
    (he : (t.batch data).outcomes[i]? = some (.error e)) :
    (t.renderAlong data (before ++ i :: after)).result = .error e := by
  rw [result_renderAlong, Batch.collectAlong_eq_error h hbefore he]
  rfl

theorem accords_along (hcompiled : t.scene.Compiled) (h : (t.batch data).Completes order) :
    t.Accords data order (t.settleAlong data order).value (t.renderAlong data order).result := by
  have hsettled := Batch.settleAlong_value h
  have hclean := Batch.isClean_settleAlong_iff h
  have hlength : (t.batch data).outcomes.length = t.bindings.length := by
    rw [outcomes_batch, List.length_map]
  rw [← value_settleAlong] at hsettled hclean
  refine ⟨?_, ?_, fun i b hb => slots_settleAlong h hb, ?_, ?_, ?_⟩
  · rw [hsettled, List.length_map, hlength]
  · rw [hsettled, List.length_map, hlength]
  · constructor
    · rintro ⟨doc, hdoc⟩
      rw [hclean]
      rcases Batch.exists_first_failure h with hvalues | ⟨before, i, after, e, rfl, hbefore, he⟩
      · exact hvalues
      · rw [renderAlong_of_failure h hbefore he] at hdoc
        simp at hdoc
    · intro hisClean
      obtain ⟨values, hvalues⟩ := hclean.mp hisClean
      obtain ⟨value, _, _, hrender⟩ := renderAlong_of_values hcompiled h hvalues
      exact ⟨_, hrender⟩
  · intro doc hdoc
    rcases Batch.exists_first_failure h with ⟨values, hvalues⟩ | ⟨before, i, after, e, rfl, hbefore, he⟩
    · obtain ⟨value, hvalue, hwrites, hrender⟩ := renderAlong_of_values hcompiled h hvalues
      obtain rfl : t.skeleton.substitute value = doc := by
        rw [hrender] at hdoc
        exact Except.ok.inj hdoc
      have hresults : (t.settleAlong data order).value.results
          = (t.batch data).outcomes.map Except.toOption := congrArg Settled.results hsettled
      refine ⟨value, ?_, hwrites, rfl⟩
      rw [hresults, hvalues, hvalue, List.map_map, List.map_map]
      rfl
    · rw [renderAlong_of_failure h hbefore he] at hdoc
      simp at hdoc
  · intro hdirty
    rcases Batch.exists_first_failure h with hvalues | ⟨before, i, after, e, rfl, hbefore, he⟩
    · rw [hclean.mpr hvalues] at hdirty
      simp at hdirty
    · refine ⟨before, i, after, e, rfl, ?_, ?_, renderAlong_of_failure h hbefore he⟩
      · intro j hj
        obtain ⟨value, hvalue⟩ := hbefore j hj
        rw [hsettled, List.getElem?_map, hvalue]
        rfl
      · rw [hsettled, List.getElem?_map, he]
        rfl

/-- A compiled template renders to a document exactly when all of its bindings settle with
values, and then the document is its skeleton with these values written at the paths of the
bindings; otherwise it fails with what the first binding to complete among the failing ones
settles with.  So it is for every order in which the bindings may complete, and for the one
in which they do. -/
theorem render_accords_with_settle (t : Template) (hcompiled : t.scene.Compiled) (data : Json) :
    (∀ order, (t.batch data).Completes order →
        t.Accords data order (t.settleAlong data order).value (t.renderAlong data order).result)
      ∧ t.Accords data (t.batch data).order (t.settle data).value (t.render data).result := by
  refine ⟨fun order h => accords_along hcompiled h, ?_⟩
  rw [settle_eq_settleAlong, render_eq_renderAlong]
  exact accords_along hcompiled (Batch.completes_order _)

/-- Three pipelines, two of which name helpers that are not there. -/
def brokenDocument : Json :=
  .object [("a", .string "\x60x | cut\x60"), ("b", .string "\x60x\x60"),
    ("c", .string "\x60x | paste\x60")]

def brokenTemplate : Template := Engine.initial.template brokenDocument .null

theorem compiled_brokenTemplate : brokenTemplate.scene.Compiled := by
  refine ⟨Json.wellFormed_object_texts ?_ (by simp [Json.text?]), rfl⟩
  simp only [Entries.Ascending, List.pairwise_cons]
  decide

theorem bindings_brokenTemplate : brokenTemplate.bindings
    = [⟨[.name "a"], "x | cut", [.data ⟨["x"]⟩, .call "cut" []]⟩,
        ⟨[.name "b"], "x", [.data ⟨["x"]⟩]⟩,
        ⟨[.name "c"], "x | paste", [.data ⟨["x"]⟩, .call "paste" []]⟩] := by
  cbv

theorem completes_brokenTemplate (data : Json) :
    (brokenTemplate.batch data).Completes [1, 2, 0] := by
  have htasks : (brokenTemplate.batch data).tasks.length = 3 := by
    show (brokenTemplate.bindings.map _).length = 3
    rw [bindings_brokenTemplate]
    rfl
  refine Batch.completes_of_perm _ rfl ?_
  rw [htasks]
  decide

/-- When the third binding completes before the first one, the render fails with what the
third one settles with. -/
theorem render_accords_brokenTemplate : brokenTemplate.scene.Compiled
    ∧ (brokenTemplate.batch .null).Completes [1, 2, 0]
    ∧ (brokenTemplate.renderAlong .null [1, 2, 0]).result = .error (.unknownHelper "paste" "c")
    ∧ brokenTemplate.Accords .null [1, 2, 0] (brokenTemplate.settleAlong .null [1, 2, 0]).value
        (.error (.unknownHelper "paste" "c")) := by
  have hcompletes := completes_brokenTemplate .null
  have hresult : (brokenTemplate.renderAlong .null [1, 2, 0]).result
      = .error (.unknownHelper "paste" "c") := by
    cbv
  have haccords := (render_accords_with_settle _ compiled_brokenTemplate .null).1 _ hcompletes
  rw [hresult] at haccords
  exact ⟨compiled_brokenTemplate, hcompletes, hresult, haccords⟩

end Template

end DocTemplate
