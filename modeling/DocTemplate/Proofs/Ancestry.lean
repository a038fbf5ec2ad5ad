/-
Where the templates of a session come from.

A template was compiled at some moment of its history, together with the partials that had been
registered by then, and a partial was a template behind a shorter history.  So whatever holds of
the scene of every lineage holds of all scenes that are nested in a template, by induction on how
much was done before.

* `Lineage.Within` — what a lineage tells of was done in a history;
* `Session.exists_of_mem_registrations` — what a partial was before it was registered;
* `Session.throughout_after` — the induction;
* `Session.compiled_after` — the templates of a session are compiled throughout.
-/
import DocTemplate.Proofs.History
import DocTemplate.Proofs.Nesting

namespace DocTemplate

theorem Entries.mem_of_find? {α : Type} {es : Entries α} {key : String} {value : α}
    (h : es.find? key = some value) : (key, value) ∈ es := by
  induction es with
  | nil => simp at h
  | cons e es ih =>
    obtain ⟨k, v⟩ := e
    rw [find?] at h
    by_cases hkey : k = key
    · rw [if_pos hkey] at h
      rw [hkey, Option.some.inj h]
      exact List.mem_cons_self
    · rw [if_neg hkey] at h
      exact List.mem_cons_of_mem _ (ih h)

/-! ### Lineages -/

/-- What a lineage tells of was done in a history: the template was compiled there, and whatever
was done to it was done there. -/
structure Lineage.Within (a : Lineage) (past : List Operation) : Prop where
  compiled : ∃ made, .compile made a.document a.options :: a.before <:+ past
  own : ∀ op ∈ a.own, op ∈ past

theorem Lineage.Within.mono {a : Lineage} {earlier past : List Operation} (h : a.Within earlier)
    (hsuffix : earlier <:+ past) : a.Within past := by
  obtain ⟨⟨made, hmade⟩, hown⟩ := h
  exact ⟨⟨made, hmade.trans hsuffix⟩, fun op hop => hsuffix.mem (hown op hop)⟩

/-- The lineage that is found in a history is made of what was done in it. -/
theorem within_of_lineage? {past : List Operation} {name : String} {a : Lineage}
    (h : lineage? past name = some a) : a.Within past := by
  induction past generalizing name a with
  | nil => simp [lineage?] at h
  | cons op past ih =>
    have hearlier {other : String} {a : Lineage} (h : lineage? past other = some a) :
        a.Within (op :: past) := (ih h).mono (List.suffix_cons op past)
    cases op with
    | configure | install | register | registerPartial => exact hearlier h
    | compile made document options =>
      rw [lineage?] at h
      by_cases hname : made = name
      · rw [if_pos hname] at h
        obtain rfl := Option.some.inj h
        exact ⟨⟨made, List.suffix_refl _⟩, by simp⟩
      · rw [if_neg hname] at h
        exact hearlier h
    | clone source made =>
      rw [lineage?] at h
      by_cases hname : made = name
      · rw [if_pos hname, Option.or_eq_some_iff] at h
        obtain hsource | ⟨_, hthere⟩ := h
        · exact hearlier hsource
        · exact hearlier hthere
      · rw [if_neg hname] at h
        exact hearlier h
    | registerOn template | configureTemplate template =>
      rw [lineage?] at h
      by_cases hname : template = name
      · rw [if_pos hname] at h
        obtain ⟨b, hb, rfl⟩ := Option.map_eq_some_iff.mp h
        obtain ⟨hcompiled, hown⟩ := hearlier hb
        exact ⟨hcompiled, List.forall_mem_cons.mpr ⟨List.mem_cons_self, hown⟩⟩
      · rw [if_neg hname] at h
        exact hearlier h

theorem Lineage.partials_template (a : Lineage) :
    a.template.partials = (Session.after a.before).engine.partials := by
  obtain ⟨document, options, before, own⟩ := a
  induction own with
  | nil => rfl
  | cons op own ih =>
    rw [← ih]
    cases op <;> rfl

/-- The documents that an operation brings along are well-formed. -/
def Operation.WellFormed : Operation → Prop
  | .compile _ document _ => document.WellFormed
  | _ => True

/-! ### Registrations -/

namespace Session

variable {past : List Operation}

theorem registrations_suffix {earlier : List Operation} (h : earlier <:+ past) :
    registrations earlier <:+ registrations past := by
  obtain ⟨later, rfl⟩ := h
  induction later with
  | nil => exact List.suffix_refl _
  | cons op later ih =>
    refine ih.trans ?_
    rw [List.cons_append]
    cases op with
    | registerPartial template name =>
      rw [registrations]
      cases (after (later ++ earlier)).templates.find? template with
      | none => exact List.suffix_refl _
      | some t => exact List.suffix_cons _ _
    | configure | install | register | registerOn | compile | clone | configureTemplate =>
      exact List.suffix_refl _

/-- A partial was a template of an earlier session, under the name from which it was
registered. -/
theorem exists_of_mem_registrations {name : String} {t : Template}
    (h : (name, t) ∈ registrations past) :
    ∃ source earlier, .registerPartial source name :: earlier <:+ past
      ∧ (after earlier).templates.find? source = some t := by
  induction past with
  | nil => simp [registrations] at h
  | cons op past ih =>
    have hbefore (hmem : (name, t) ∈ registrations past) :
        ∃ source earlier, .registerPartial source name :: earlier <:+ op :: past
          ∧ (after earlier).templates.find? source = some t := by
      obtain ⟨source, earlier, hsuffix, hfind⟩ := ih hmem
      exact ⟨source, earlier, hsuffix.trans (List.suffix_cons op past), hfind⟩
    cases op with
    | registerPartial source registered =>
      rw [registrations] at h
      cases hfind : (after past).templates.find? source with
      | none =>
        rw [hfind] at h
        exact hbefore h
      | some u =>
        rw [hfind] at h
        obtain heq | hmem := List.mem_cons.mp h
        · obtain ⟨rfl, rfl⟩ := Prod.mk.inj heq
          exact ⟨source, past, List.suffix_refl _, hfind⟩
        · exact hbefore hmem
    | configure | install | register | registerOn | compile | clone | configureTemplate =>
      exact hbefore h

theorem mem_registrations_of_mem_partials {e : String × Template}
    (h : e ∈ (after past).engine.partials) : e ∈ registrations past := by
  induction past with
  | nil => exact h
  | cons op past ih =>
    rw [after_cons, engine_perform] at h
    cases op with
    | registerPartial template name =>
      rw [Operation.engine] at h
      rw [registrations]
      cases hfind : (after past).templates.find? template with
      | none =>
        rw [hfind] at h
        exact ih h
      | some t =>
        rw [hfind] at h
        obtain rfl | hmem := Entries.mem_put h
        · exact List.mem_cons_self
        · exact List.mem_cons_of_mem _ (ih hmem)
    | configure | install | register | registerOn | compile | clone | configureTemplate =>
      exact ih h

/-- What holds of the scene of every lineage of a history holds throughout the templates behind
it. -/
theorem throughout_after {P : Scene → Prop} (h : ∀ a : Lineage, a.Within past → P a.template.scene)
    {name : String} {t : Template} (ht : (after past).templates.find? name = some t) :
    t.Throughout P := by
  induction hlength : past.length using Nat.strongRecOn generalizing past name t with
  | ind length ih =>
    rw [find?_after] at ht
    obtain ⟨a, ha, rfl⟩ := Option.map_eq_some_iff.mp ht
    have hwithin := within_of_lineage? ha
    refine .of_scene (h a hwithin) ?_
    intro part inner hinner
    rw [a.follows_template.partials] at hinner
    obtain ⟨source, earlier, hsuffix, hfind⟩ :=
      exists_of_mem_registrations (Entries.mem_of_find? hinner)
    obtain ⟨made, hmade⟩ := hwithin.compiled
    -- The partial was there before it was registered, and that was before the template.
    have hearlier : earlier <:+ past :=
      (List.suffix_cons _ _).trans (hsuffix.trans ((List.suffix_cons _ _).trans hmade))
    have hshorter : earlier.length < length := by
      have hle := hsuffix.length_le
      have hlt := hmade.length_le
      simp only [List.length_cons] at hle hlt
      omega
    exact ih earlier.length hshorter (fun b hb => h b (hb.mono hearlier)) hfind rfl

/-- The templates behind a history are compiled throughout. -/
theorem compiled_after (hpast : ∀ op ∈ past, op.WellFormed) {name : String} {t : Template}
    (ht : (after past).templates.find? name = some t) : t.Throughout Scene.Compiled := by
  refine throughout_after ?_ ht
  intro a hwithin
  obtain ⟨made, hmade⟩ := hwithin.compiled
  have hfollows := a.follows_template
  constructor
  · rw [show a.template.scene.skeleton = a.document from hfollows.skeleton]
    exact hpast _ (hmade.mem List.mem_cons_self)
  · rw [show a.template.scene.skeleton = a.document from hfollows.skeleton]
    exact hfollows.bindings

end Session

end DocTemplate
