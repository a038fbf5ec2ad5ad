/-
Rendering as substitution.

`Json.substitute` goes down a template once and puts a value in the place of
every leaf that is a pipeline.  Rendering does it in four steps: it lists the
bindings, runs them together, puts their results in order and writes them into a
copy of the template one after the other.

* `writeAll_below` — writing values at the bindings below a place is
  substitution below it, since no write disturbs the place of another;
* `Scene.result_renderAlong` — a render is the collected values, assembled;
* `Template.renderAlong_substitutes` — a render gives a document exactly when every
  leaf has a value, and then it is the substitution of these values.

Whole renders are evaluated here and in the modules above, with the equations of Mathlib in scope.
-/
import DocTemplate.Engine.Basic
import DocTemplate.Proofs.Batch
import DocTemplate.Proofs.Leaves
import Mathlib

namespace DocTemplate

/-! ### Substitution -/

namespace Json

mutual

/-- A part of a template at a path, with the values of their bindings in the
places of the leaves. -/
def substituteBelow (value : Binding → Json) (path : Path) : Json → Json
  | .string text =>
    match Binding.ofLeaf? text path with
    | some b => value b
    | none => .string text
  | .array items => .array (substituteItems value path 0 items)
  | .object members => .object (substituteMembers value path members)
  | doc => doc

/-- The items of an array, the first of which has a given index, with values in
the places of the leaves. -/
def substituteItems (value : Binding → Json) (path : Path) (index : Nat) : List Json → List Json
  | [] => []
  | item :: items =>
    substituteBelow value (path.child (.index index)) item
      :: substituteItems value path (index + 1) items

/-- The members of an object, with values in the places of the leaves. -/
def substituteMembers (value : Binding → Json) (path : Path) :
    List (String × Json) → List (String × Json)
  | [] => []
  | (key, part) :: members =>
    (key, substituteBelow value (path.child (.name key)) part)
      :: substituteMembers value path members

end

/-- A template with the values of their bindings in the places of the leaves; a
bare text stays as it is. -/
def substitute (value : Binding → Json) : Json → Json
  | .string text => .string text
  | template => substituteBelow value [] template

/-! ### Writing below a place -/

/-- Writing below a part of a document changes this part. -/
theorem write_cons {doc part : Json} {key : Path.Key} {wrap : Json → Json}
    (hchild : doc.child? key = some part) (hwrite : ∀ q, doc.writeChild key q = .ok (wrap q))
    (path : Path) (value : Json) :
    doc.write (key :: path) value = (part.write path value).map wrap := by
  cases path with
  | nil =>
    rw [write_nil, write.eq_def]
    exact hwrite value
  | cons next path =>
    simp only [write, hchild]
    cases part.write (next :: path) value with
    | error fault => rfl
    | ok q => exact hwrite q

theorem write_item (before : List Json) (part : Json) (after : List Json) (path : Path)
    (value : Json) :
    (Json.array (before ++ part :: after)).write (.index before.length :: path) value
      = (part.write path value).map fun q => .array (before ++ q :: after) :=
  write_cons (by simp [child?]) (fun q => by simp [writeChild]) path value

end Json

/-- A key that lies above all others before it is looked up behind these. -/
theorem Entries.find?_append {α : Type} {before : Entries α} {key : String}
    (hbefore : ∀ e ∈ before, e.1 < key) (value : α) (after : Entries α) :
    find? (before ++ (key, value) :: after) key = some value := by
  induction before with
  | nil => simp [find?]
  | cons e before ih =>
    obtain ⟨k, v⟩ := e
    have hk : k < key := hbefore (k, v) (by simp)
    have hne : k ≠ key := fun h => String.lt_irrefl key (h ▸ hk)
    rw [List.cons_append, find?, if_neg hne]
    exact ih fun e he => hbefore e (List.mem_cons_of_mem _ he)

theorem Entries.put_append {α : Type} {before : Entries α} {key : String}
    (hbefore : ∀ e ∈ before, e.1 < key) (old value : α) (after : Entries α) :
    put (before ++ (key, old) :: after) key value = before ++ (key, value) :: after := by
  induction before with
  | nil => simp [put]
  | cons e before ih =>
    obtain ⟨k, v⟩ := e
    have hk : k < key := hbefore (k, v) (by simp)
    have hne : k ≠ key := fun h => String.lt_irrefl key (h ▸ hk)
    have hnlt : ¬ key < k := fun h => String.lt_irrefl key (String.lt_trans h hk)
    rw [List.cons_append, put, if_neg hne, if_neg hnlt,
      ih fun e he => hbefore e (List.mem_cons_of_mem _ he)]
    rfl

theorem Json.write_member {before : List (String × Json)} {key : String}
    (hbefore : ∀ m ∈ before, m.1 < key) (part : Json) (after : List (String × Json)) (path : Path)
    (value : Json) :
    (Json.object (before ++ (key, part) :: after)).write (.name key :: path) value
      = (part.write path value).map fun q => .object (before ++ (key, q) :: after) :=
  write_cons (by rw [child?, Entries.find?_append hbefore])
    (fun q => by rw [writeChild, Entries.put_append hbefore]) path value

/-! ### Writing all values -/

theorem writeAll_append (doc : Json) (ws us : List (Path × Json)) :
    writeAll doc (ws ++ us) = (writeAll doc ws).bind fun doc => writeAll doc us := by
  induction ws generalizing doc with
  | nil => rfl
  | cons w ws ih =>
    obtain ⟨path, value⟩ := w
    rw [List.cons_append, writeAll, writeAll]
    cases doc.write path value with
    | error fault => rfl
    | ok doc => exact ih doc

/-- Writes below a part of a document change this part alone. -/
theorem writeAll_cons_key {wrap : Json → Json} {key : Path.Key}
    (hwrite : ∀ part path value,
      (wrap part).write (key :: path) value = (part.write path value).map wrap)
    {part result : Json} {ws : List (Path × Json)} (h : writeAll part ws = .ok result) :
    writeAll (wrap part) (ws.map fun w => (key :: w.1, w.2)) = .ok (wrap result) := by
  induction ws generalizing part with
  | nil =>
    rw [writeAll] at h
    rw [Except.ok.inj h]
    rfl
  | cons w ws ih =>
    obtain ⟨path, value⟩ := w
    rw [writeAll] at h
    rw [List.map_cons, writeAll, hwrite]
    cases hpart : part.write path value with
    | error fault => simp [hpart] at h
    | ok next =>
      rw [hpart] at h
      exact ih h

/-- The writes of values at the bindings below a place, seen from this place. -/
def writesBelow (value : Binding → Json) (path : Path) (bs : List Binding) : List (Path × Json) :=
  bs.map fun b => (b.path.drop path.length, value b)

/-- Seen from a place, what is written one step below it is written behind that
step. -/
theorem writesBelow_child (value : Binding → Json) {part : Json} (h : part.WellFormed)
    (path : Path) (key : Path.Key) :
    writesBelow value path (Binding.below (path.child key) part)
      = (writesBelow value (path.child key) (Binding.below (path.child key) part)).map
          fun w => (key :: w.1, w.2) := by
  rw [writesBelow, writesBelow, List.map_map]
  refine List.map_congr_left ?_
  intro b hb
  obtain ⟨rest, _, hpath, _⟩ := (Binding.mem_below_iff h).mp hb
  simp [hpath, Path.child]

/-- That writing at the bindings below a place is substitution below it. -/
def SubstitutesBelow (value : Binding → Json) (doc : Json) : Prop :=
  ∀ path, writeAll doc (writesBelow value path (Binding.below path doc))
    = .ok (doc.substituteBelow value path)

/-- Writing goes along the items of an array; those before are done. -/
theorem writeAll_items (value : Binding → Json) (path : Path) {items : List Json}
    (hwf : ∀ item ∈ items, item.WellFormed) (h : ∀ item ∈ items, SubstitutesBelow value item)
    (before : List Json) :
    writeAll (.array (before ++ items))
        (writesBelow value path (Binding.belowItems path before.length items))
      = .ok (.array (before ++ Json.substituteItems value path before.length items)) := by
  induction items generalizing before with
  | nil => rfl
  | cons item items ih =>
    have hitem := writeAll_cons_key (fun part => Json.write_item before part items)
      (h item (by simp) (path.child (.index before.length)))
    rw [Binding.belowItems, writesBelow, List.map_append, ← writesBelow, ← writesBelow,
      writeAll_append, writesBelow_child value (hwf item (by simp)), hitem]
    have hrest := ih (fun i hi => hwf i (List.mem_cons_of_mem _ hi))
      (fun i hi => h i (List.mem_cons_of_mem _ hi))
      (before ++ [item.substituteBelow value (path.child (.index before.length))])
    simpa [Json.substituteItems, Except.bind] using hrest

/-- Writing goes along the members of an object; those before are done. -/
theorem writeAll_members (value : Binding → Json) (path : Path) {members : List (String × Json)}
    (hkeys : Entries.Ascending members) (hwf : ∀ m ∈ members, m.2.WellFormed)
    (h : ∀ m ∈ members, SubstitutesBelow value m.2) (before : List (String × Json))
    (hbefore : ∀ m ∈ before, ∀ n ∈ members, m.1 < n.1) :
    writeAll (.object (before ++ members))
        (writesBelow value path (Binding.belowMembers path members))
      = .ok (.object (before ++ Json.substituteMembers value path members)) := by
  induction members generalizing before with
  | nil => rfl
  | cons m members ih =>
    obtain ⟨key, part⟩ := m
    obtain ⟨hfirst, hascending⟩ := List.pairwise_cons.mp hkeys
    have hbelow : ∀ m ∈ before, m.1 < key := fun m hm => hbefore m hm (key, part) (by simp)
    have hpart := writeAll_cons_key (fun part => Json.write_member hbelow part members)
      (h (key, part) (by simp) (path.child (.name key)))
    rw [Binding.belowMembers, writesBelow, List.map_append, ← writesBelow, ← writesBelow,
      writeAll_append, writesBelow_child value (hwf (key, part) (by simp)), hpart]
    have hrest := ih hascending (fun n hn => hwf n (List.mem_cons_of_mem _ hn))
      (fun n hn => h n (List.mem_cons_of_mem _ hn))
      (before ++ [(key, part.substituteBelow value (path.child (.name key)))]) (by
        intro m hm n hn
        rcases List.mem_append.mp hm with hm | hm
        · exact hbefore m hm n (List.mem_cons_of_mem _ hn)
        · obtain rfl := by simpa using hm
          exact hfirst n hn)
    simpa [Json.substituteMembers, Except.bind] using hrest

/-- Writing values at the bindings below a place is substitution below it. -/
theorem writeAll_below (value : Binding → Json) {doc : Json} (h : doc.WellFormed) :
    SubstitutesBelow value doc := by
  induction h with
  | null | bool | number => exact fun _ => rfl
  | string s =>
    intro path
    rw [Binding.below, Json.substituteBelow]
    cases hb : Binding.ofLeaf? s path with
    | none => rfl
    | some b => simp [writesBelow, Binding.path_eq_of_ofLeaf? hb, writeAll]
  | array hitems ih =>
    intro path
    rw [Binding.below, Json.substituteBelow]
    exact writeAll_items value path hitems ih []
  | object hkeys hmembers ih =>
    intro path
    rw [Binding.below, Json.substituteBelow]
    exact writeAll_members value path hkeys hmembers ih [] (by simp)

/-- Writing a value for every binding of a template is substitution in it. -/
theorem writeAll_ofTemplate (value : Binding → Json) {document : Json} (h : document.WellFormed) :
    writeAll document ((Binding.ofTemplate document).map fun b => (b.path, value b))
      = .ok (document.substitute value) := by
  cases hdoc : document.text? with
  | some s =>
    obtain rfl := Json.text?_eq_some_iff.mp hdoc
    rfl
  | none =>
    rw [Binding.ofTemplate_eq_below hdoc]
    have hwrites := writeAll_below value h []
    have hsubstitute : document.substitute value = document.substituteBelow value [] := by
      cases document with
      | string s => simp [Json.text?] at hdoc
      | null | bool | number | array | object => rfl
    rw [hsubstitute, ← hwrites]
    simp [writesBelow]

/-! ### Rendering -/

theorem Run.result_tryCatch {α : Type} (x : Run α) (handle : Error → Run α) :
    (tryCatch x handle).result
      = match x.result with
        | .ok a => .ok a
        | .error e => (handle e).result := by
  obtain ⟨value, script⟩ : Timed (Except Error α) := x
  cases value <;> rfl

theorem Scene.result_renderAlong (s : Scene) (runner : Runner) (partials : Entries Renderer)
    (order : List Nat) (data : Json) :
    (s.renderAlong runner partials order data).result
      = ((s.batch runner partials data).collectAlong order).result.bind s.assemble := by
  simp only [Scene.renderAlong, Run.result_bind, Run.result_log, Run.result_tryCatch,
    Run.result_ofExcept, Run.result_pure]
  cases ((s.batch runner partials data).collectAlong order).result with
  | error e => rfl
  | ok values =>
    show (s.assemble values).bind (fun doc => .ok doc) = s.assemble values
    cases s.assemble values <;> rfl

namespace Scene

theorem outcomes_batch (s : Scene) (runner : Runner) (partials : Entries Renderer) (data : Json) :
    (s.batch runner partials data).outcomes
      = s.bindings.map fun b => (b.evaluate (s.environment partials) data).result := by
  simp only [Batch.outcomes, batch, List.map_map]
  refine List.map_congr_left ?_
  intro b _
  exact Ending.outcome_ofRun _ _

/-- When all bindings have values, these are a function of the binding. -/
theorem exists_map_of_outcomes {s : Scene} {runner : Runner} {partials : Entries Renderer}
    {data : Json} {values : List Json}
    (h : (s.batch runner partials data).outcomes = values.map .ok) :
    ∃ value : Binding → Json, values = s.bindings.map value
      ∧ ∀ b ∈ s.bindings, (b.evaluate (s.environment partials) data).result = .ok (value b) := by
  let value (b : Binding) : Json :=
    (b.evaluate (s.environment partials) data).result.toOption.getD .null
  rw [outcomes_batch] at h
  refine ⟨value, ?_, ?_⟩
  · have hmap := congrArg (List.map fun outcome => outcome.toOption.getD .null) h
    rw [List.map_map, List.map_map] at hmap
    exact (hmap.trans (List.map_id values)).symm
  · intro b hb
    have hmem := List.mem_map_of_mem (f := fun b : Binding =>
      (b.evaluate (s.environment partials) data).result) hb
    rw [h] at hmem
    obtain ⟨a, _, ha⟩ := List.mem_map.mp hmem
    simp [value, ← ha, Except.toOption]

theorem value_settle (s : Scene) (partials : Entries Renderer) (data : Json) :
    (s.settle partials data).value
      = ⟨(s.batch .foreground partials data).outcomes.map (Join.fatal? .abort),
          (s.batch .foreground partials data).outcomes.map Except.toOption⟩ :=
  Batch.settleAlong_value (Batch.completes_order _)

end Scene

namespace Template

variable (t : Template) (data : Json)

/-- What the chains of a template find around themselves. -/
def environment : Environment := t.scene.environment (renderers t.partials)

/-- What the chain of a binding gives in a template on data. -/
def chain (b : Binding) : Except Error Json := (b.evaluate t.environment data).result

/-- The bindings of a template as tasks, for a render in the foreground. -/
def batch : Batch Json := t.scene.batch .foreground (renderers t.partials) data

/-- Render a template, the bindings completing in an order. -/
def renderAlong (order : List Nat) : Run Json :=
  t.scene.renderAlong .foreground (renderers t.partials) order data

theorem render_eq_renderAlong : t.render data = t.renderAlong data (t.batch data).order := by
  cases t
  rfl

theorem outcomes_batch : (t.batch data).outcomes = t.bindings.map (t.chain data) :=
  Scene.outcomes_batch _ _ _ _

theorem result_renderAlong (order : List Nat) : (t.renderAlong data order).result
    = ((t.batch data).collectAlong order).result.bind t.scene.assemble :=
  Scene.result_renderAlong _ _ _ _ _

/-- The result of a render is a substitution in a document: a document that comes
out is this one with what the chain of each leaf gives in the place of the leaf,
and what fails is the chain of a leaf. -/
structure Substitutes (document : Json) (result : Except Error Json) : Prop where
  ok_iff : ∀ doc, result = .ok doc ↔ ∃ value : Binding → Json,
    (∀ b, IsLeaf document b → t.chain data b = .ok (value b)) ∧ doc = document.substitute value
  error : ∀ e, result = .error e → ∃ b, IsLeaf document b ∧ t.chain data b = .error e

variable {t data} {document : Json} {order : List Nat}

/-- Values for all bindings, assembled, are a substitution in the document that a
template was compiled from. -/
theorem assemble_map (value : Binding → Json) (h : document.WellFormed)
    (hskeleton : t.skeleton = document) (hbindings : t.bindings = Binding.ofTemplate document) :
    t.scene.assemble ((Binding.ofTemplate document).map value)
      = .ok (document.substitute value) := by
  rw [← writeAll_ofTemplate value h, ← List.zip_map', ← hbindings, ← hskeleton]
  rfl

/-- Whatever the order in which the bindings of a template complete, a render is a
substitution in the document that it was compiled from. -/
theorem renderAlong_substitutes (h : document.WellFormed) (hskeleton : t.skeleton = document)
    (hbindings : t.bindings = Binding.ofTemplate document)
    (ho : (t.batch data).Completes order) :
    t.Substitutes data document (t.renderAlong data order).result := by
  have houtcomes : (t.batch data).outcomes = (Binding.ofTemplate document).map (t.chain data) := by
    rw [outcomes_batch, hbindings]
  have hok (value : Binding → Json)
      (hvalue : ∀ b, IsLeaf document b → t.chain data b = .ok (value b)) :
      (t.renderAlong data order).result = .ok (document.substitute value) := by
    have hcollect : ((t.batch data).collectAlong order).result
        = .ok ((Binding.ofTemplate document).map value) := by
      rw [Batch.collectAlong_eq_ok_iff ho, houtcomes, List.map_map]
      exact List.map_congr_left fun b hb => hvalue b ((Binding.mem_ofTemplate_iff h).mp hb)
    rw [result_renderAlong, hcollect]
    exact assemble_map value h hskeleton hbindings
  cases hcollect : ((t.batch data).collectAlong order).result with
  | ok values =>
    obtain ⟨value, _, hchains⟩ :=
      Scene.exists_map_of_outcomes ((Batch.collectAlong_eq_ok_iff ho values).mp hcollect)
    have hvalue (b : Binding) (hb : IsLeaf document b) : t.chain data b = .ok (value b) := by
      refine hchains b ?_
      show b ∈ t.bindings
      rw [hbindings]
      exact (Binding.mem_ofTemplate_iff h).mpr hb
    refine ⟨fun doc => ⟨fun hdoc => ⟨value, hvalue, ?_⟩, ?_⟩, ?_⟩
    · rw [hok value hvalue] at hdoc
      exact (Except.ok.inj hdoc).symm
    · rintro ⟨other, hother, rfl⟩
      exact hok other hother
    · intro e he
      rw [hok value hvalue] at he
      simp at he
  | error error =>
    have hfails : (t.renderAlong data order).result = .error error := by
      rw [result_renderAlong, hcollect]
      rfl
    obtain ⟨b, hb, hchain⟩ : ∃ b ∈ Binding.ofTemplate document, t.chain data b = .error error := by
      have hmem := Batch.mem_outcomes_of_collectAlong ho hcollect
      rw [houtcomes] at hmem
      exact List.mem_map.mp hmem
    have hleaf := (Binding.mem_ofTemplate_iff h).mp hb
    refine ⟨fun doc => ⟨?_, ?_⟩, fun e he => ⟨b, hleaf, ?_⟩⟩
    · intro hdoc
      rw [hfails] at hdoc
      simp at hdoc
    · rintro ⟨value, hvalue, _⟩
      rw [hvalue b hleaf] at hchain
      simp at hchain
    · rw [hfails] at he
      rw [hchain, Except.error.inj he]

/-- Rendering is substitution: a document comes out exactly when the chain of every
leaf below the root gives a value, and it is the template with these values in the
places of the leaves; so it is whatever the order in which the bindings complete. -/
theorem render_substitutes (e : Engine) (document options data : Json) (h : document.WellFormed) :
    (e.template document options).Substitutes data document
        ((e.template document options).render data).result
      ∧ ∀ order, ((e.template document options).batch data).Completes order →
          (e.template document options).Substitutes data document
            ((e.template document options).renderAlong data order).result := by
  refine ⟨?_, fun order ho => renderAlong_substitutes h rfl rfl ho⟩
  rw [render_eq_renderAlong]
  exact renderAlong_substitutes h rfl rfl (Batch.completes_order _)

/-- A template of two pipelines and a text that is none. -/
def quotingDocument : Json :=
  .object [("a", .string "\x60x\x60"), ("list", .array [.string "\x60x\x60", .string "plain"])]

/-- Data in which a text looks like a pipeline. -/
def quotingData : Json := .object [("x", .string "\x60y\x60")]

theorem wellFormed_quotingDocument : quotingDocument.WellFormed := by
  refine .object (List.pairwise_pair.mpr (by decide)) ?_
  intro m hm
  simp only [List.mem_cons, List.not_mem_nil, or_false] at hm
  rcases hm with rfl | rfl
  · exact .string _
  · refine .array ?_
    intro item hitem
    simp only [List.mem_cons, List.not_mem_nil, or_false] at hitem
    rcases hitem with rfl | rfl <;> exact .string _

theorem render_quotingDocument : quotingDocument.WellFormed
    ∧ ((Engine.initial.template quotingDocument .null).render quotingData).result
      = .ok (.object [("a", .string "\x60y\x60"),
          ("list", .array [.string "\x60y\x60", .string "plain"])]) := by
  have hwf := wellFormed_quotingDocument
  have hrender := render_substitutes Engine.initial quotingDocument .null quotingData hwf
  refine ⟨hwf, (hrender.1.ok_iff _).mpr ⟨fun _ => .string "\x60y\x60", fun b hb => ?_, by cbv⟩⟩
  have hbindings : Binding.ofTemplate quotingDocument
      = [⟨[.name "a"], "x", [.data ⟨["x"]⟩]⟩, ⟨[.name "list", .index 0], "x", [.data ⟨["x"]⟩]⟩] := by
    cbv
  have hmem := (Binding.mem_ofTemplate_iff hwf).mpr hb
  simp only [hbindings, List.mem_cons, List.not_mem_nil, or_false] at hmem
  rcases hmem with rfl | rfl <;> cbv

end Template

end DocTemplate
