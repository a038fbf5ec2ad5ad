/-
What a template has from its history.

A history is a list of operations, the latest first, and `Session.after` is the session
behind it.  The templates of this session are values; what they are is read off the history
by looking back along it, without any session:

* `lineage?` — the document that the template under a name was compiled from, what was done
  before that, and what has been done to it since, or to those that it was cloned from;
* `Template.Follows` — helpers, settings, partials and the observer by such a lineage: the
  latest registration counts, that on the template before that on the engine;
* `Session.needs` — what a template depends on at an earlier moment of the history.

Main facts:

* `Session.value_perform` — what an operation makes of a session;
* `Session.find?_after` — the template under a name is built by its lineage;
* `Session.same_of_unneeded` — an operation that a template does not depend on can be left
  out;
* `Session.templates_follow_history` — both for all templates of all histories.
-/
import DocTemplate.Engine.Session

namespace DocTemplate

theorem Registry.find?_register (r : Registry) (name other : String) (helper : Helper) :
    (r.register name helper).find? other
      = if name = other then some helper else r.find? other := by
  rw [Registry.find?, register, Entries.find?_put]
  by_cases hname : name = other
  · rw [if_pos hname, if_pos hname]
    rfl
  · rw [if_neg hname, if_neg hname]
    rfl

/-! ### Operations -/

/-- A part of a session that an operation can change. -/
inductive Slot where
  | engine
  | template (name : String)
  deriving DecidableEq

namespace Operation

/-- The part of a session that an operation changes. -/
def target : Operation → Slot
  | .configure _ | .install _ | .register .. | .registerPartial .. => .engine
  | .registerOn name .. | .compile name .. | .clone _ name | .configureTemplate name _ =>
    .template name

/-- The engine behind an operation. -/
def engine (s : Session) : Operation → Engine
  | .configure config => s.engine.withConfig config
  | .install observer => s.engine.install observer
  | .register name helper => s.engine.register name helper
  | .registerPartial template name =>
    match s.templates.find? template with
    | some t => s.engine.registerPartial name t
    | none => s.engine
  | _ => s.engine

/-- The template that an operation puts under a name, in place of the one there. -/
def made? (s : Session) : Operation → Option (String × Template)
  | .registerOn template name helper =>
    (s.templates.find? template).map fun t => (template, t.register name helper)
  | .compile name document options => some (name, s.engine.template document options)
  | .clone template name => (s.templates.find? template).map fun t => (name, t)
  | .configureTemplate template config =>
    (s.templates.find? template).map fun t => (template, t.withConfig config)
  | _ => none

end Operation

namespace Session

/-- An operation makes another engine, or another template under one name. -/
theorem value_perform (s : Session) (op : Operation) :
    (s.perform op).value = ⟨op.engine s, match op.made? s with
      | some (name, t) => s.templates.put name t
      | none => s.templates⟩ := by
  cases op with
  | configure | install | register | compile => rfl
  | registerOn template | clone template | registerPartial template =>
    simp only [perform, Operation.engine, Operation.made?]
    cases s.templates.find? template <;> rfl
  | configureTemplate template =>
    simp only [perform, change, Operation.engine, Operation.made?]
    cases s.templates.find? template <;> rfl

theorem find?_perform (s : Session) (op : Operation) (name : String) :
    (s.perform op).value.templates.find? name = match op.made? s with
      | some (made, t) => if made = name then some t else s.templates.find? name
      | none => s.templates.find? name := by
  rw [value_perform]
  cases op.made? s with
  | none => rfl
  | some made => exact Entries.find?_put _ _ _ _

theorem engine_perform (s : Session) (op : Operation) :
    (s.perform op).value.engine = op.engine s := by
  rw [value_perform]

/-! ### Histories -/

/-- The session behind some operations, the latest of which comes first. -/
def after (past : List Operation) : Session := (initial.performAll past.reverse).value

theorem value_performAll (s : Session) (ops : List Operation) :
    (s.performAll ops).value = ops.foldl (fun s op => (s.perform op).value) s := by
  induction ops generalizing s with
  | nil => rfl
  | cons op ops ih => exact ih _

theorem after_cons (op : Operation) (past : List Operation) :
    after (op :: past) = ((after past).perform op).value := by
  rw [after, after, value_performAll, value_performAll, List.reverse_cons, List.foldl_append]
  rfl

/-- The partials that have been registered, the latest first, each as the template that was
under its name at that moment. -/
def registrations : List Operation → Entries Template
  | [] => []
  | .registerPartial template name :: past =>
    match (after past).templates.find? template with
    | some t => (name, t) :: registrations past
    | none => registrations past
  | _ :: past => registrations past

end Session

namespace Operation

/-- The helper that an operation registers under a name on the engine. -/
def engineHelper? (name : String) : Operation → Option Helper
  | .register registered helper => if registered = name then some helper else none
  | _ => none

/-- The helper that an operation registers under a name on a template. -/
def ownHelper? (name : String) : Operation → Option Helper
  | .registerOn _ registered helper => if registered = name then some helper else none
  | _ => none

/-- The configuration that an operation gives the engine. -/
def engineConfig? : Operation → Option Config
  | .configure config => some config
  | _ => none

/-- The configuration that an operation gives a template. -/
def ownConfig? : Operation → Option Config
  | .configureTemplate _ config => some config
  | _ => none

/-- The observer that an operation installs. -/
def observer? : Operation → Option Observer
  | .install observer => some observer
  | _ => none

/-- A template with what an operation registers or sets on it. -/
def applyTo : Operation → Template → Template
  | .registerOn _ name helper, t => t.register name helper
  | .configureTemplate _ config, t => t.withConfig config
  | _, t => t

end Operation

/-! ### Lineages -/

/-- How a template came about. -/
structure Lineage where
  document : Json
  options : Json
  /-- What was done before the document was compiled, the latest first. -/
  before : List Operation
  /-- What has been done to the template since, and before a clone to the one that it was
  cloned from, the latest first. -/
  own : List Operation

/-- The lineage of the template under a name, found by looking back along a history. -/
def lineage? : List Operation → String → Option Lineage
  | [], _ => none
  | op :: past, name =>
    match op with
    | .compile made document options =>
      if made = name then some ⟨document, options, past, []⟩ else lineage? past name
    | .clone source made =>
      -- There is nothing to clone under a name that is not there.
      if made = name then (lineage? past source).or (lineage? past name) else lineage? past name
    | .registerOn template _ _ | .configureTemplate template _ =>
      if template = name then (lineage? past name).map fun a => { a with own := op :: a.own }
      else lineage? past name
    | _ => lineage? past name

/-- The template of a lineage: compiled, and then changed by what was done to it. -/
def Lineage.template (a : Lineage) : Template :=
  a.own.foldr Operation.applyTo ((Session.after a.before).engine.template a.document a.options)

/-- The template under a name is that of its lineage. -/
theorem Session.find?_after (past : List Operation) (name : String) :
    (after past).templates.find? name = (lineage? past name).map Lineage.template := by
  induction past generalizing name with
  | nil => rfl
  | cons op past ih =>
    rw [after_cons, find?_perform]
    cases op with
    | configure | install | register | registerPartial => exact ih name
    | compile made document options =>
      rw [lineage?]
      by_cases hname : made = name
      · rw [if_pos hname]
        exact if_pos hname
      · rw [if_neg hname, ← ih name]
        exact if_neg hname
    | clone source made =>
      rw [Operation.made?, lineage?, ih source]
      cases hsource : lineage? past source with
      | none =>
        rw [Option.none_or, ite_self]
        exact ih name
      | some a =>
        by_cases hname : made = name
        · rw [if_pos hname]
          exact if_pos hname
        · rw [if_neg hname, ← ih name]
          exact if_neg hname
    | registerOn template | configureTemplate template =>
      rw [Operation.made?, lineage?, ih template]
      by_cases hname : template = name
      · rw [if_pos hname, hname]
        cases hown : lineage? past name with
        | none =>
          rw [ih name, hown]
          rfl
        | some a => exact if_pos rfl
      · rw [if_neg hname, ← ih name]
        cases lineage? past template with
        | none => rfl
        | some a => exact if_neg hname

/-! ### What is read off a history -/

/-- What an engine holds behind a history: of everything the latest. -/
structure Engine.Follows (e : Engine) (past : List Operation) : Prop where
  helper : ∀ name, e.helpers.find? name
    = (past.findSome? (·.engineHelper? name)).or (Helper.builtIn.find? name)
  config : e.config = (past.findSome? Operation.engineConfig?).getD .standard
  observer : e.observer = past.findSome? Operation.observer?
  partials : ∀ name, e.partials.find? name = (Session.registrations past).find? name

/-- What a template holds by its lineage: of everything the latest, and what was done to the
template itself before what was done to the engine. -/
structure Template.Follows (t : Template) (a : Lineage) : Prop where
  skeleton : t.skeleton = a.document
  bindings : t.bindings = Binding.ofTemplate a.document
  options : t.options = a.options
  helper : ∀ name, t.helpers.find? name
    = ((a.own.findSome? (·.ownHelper? name)).or
        (a.before.findSome? (·.engineHelper? name))).or (Helper.builtIn.find? name)
  config : t.config = ((a.own.findSome? Operation.ownConfig?).or
    (a.before.findSome? Operation.engineConfig?)).getD .standard
  observer : t.observer = a.before.findSome? Operation.observer?
  partials : ∀ name, t.partials.find? name = (Session.registrations a.before).find? name

/-- The engine follows the history of the session. -/
theorem Session.follows_after (past : List Operation) : (after past).engine.Follows past := by
  induction past with
  | nil => exact ⟨fun _ => rfl, rfl, rfl, fun _ => rfl⟩
  | cons op past ih =>
    rw [after_cons, engine_perform]
    cases op with
    | registerOn | compile | clone | configureTemplate =>
      exact ⟨ih.helper, ih.config, ih.observer, ih.partials⟩
    | configure config => exact ⟨ih.helper, rfl, ih.observer, ih.partials⟩
    | install => exact ⟨ih.helper, ih.config, rfl, ih.partials⟩
    | register registered helper =>
      refine ⟨?_, ih.config, ih.observer, ih.partials⟩
      intro name
      show ((after past).engine.helpers.register registered helper).find? name = _
      rw [Registry.find?_register, List.findSome?_cons, Operation.engineHelper?, ih.helper]
      by_cases hname : registered = name
      · rw [if_pos hname, if_pos hname]
        rfl
      · rw [if_neg hname, if_neg hname]
    | registerPartial template registered =>
      rw [Operation.engine]
      cases hfind : (after past).templates.find? template with
      | none =>
        refine ⟨ih.helper, ih.config, ih.observer, ?_⟩
        rw [registrations, hfind]
        exact ih.partials
      | some t =>
        refine ⟨ih.helper, ih.config, ih.observer, ?_⟩
        intro name
        show ((after past).engine.partials.put registered t).find? name = _
        rw [Entries.find?_put, registrations, hfind, ih.partials]
        rfl

/-- The template of a lineage follows it. -/
theorem Lineage.follows_template (a : Lineage) : a.template.Follows a := by
  obtain ⟨document, options, before, own⟩ := a
  induction own with
  | nil =>
    have h := Session.follows_after before
    exact ⟨rfl, rfl, rfl, h.helper, h.config, h.observer, h.partials⟩
  | cons op own ih =>
    cases op with
    | registerOn template registered helper =>
      refine ⟨ih.skeleton, ih.bindings, ih.options, ?_, ih.config, ih.observer, ih.partials⟩
      intro name
      have hbelow := ih.helper name
      show (Registry.register _ registered helper).find? name = _
      rw [Registry.find?_register, List.findSome?_cons, Operation.ownHelper?]
      by_cases hname : registered = name
      · rw [if_pos hname, if_pos hname]
        rfl
      · rw [if_neg hname, if_neg hname]
        exact hbelow
    | configureTemplate template config =>
      exact ⟨ih.skeleton, ih.bindings, ih.options, ih.helper, rfl, ih.observer, ih.partials⟩
    | configure | install | register | compile | clone | registerPartial =>
      exact ⟨ih.skeleton, ih.bindings, ih.options, ih.helper, ih.config, ih.observer, ih.partials⟩

/-! ### What a template depends on -/

namespace Session

/-- Two sessions have the same in a slot. -/
def Same (s s' : Session) : Slot → Prop
  | .engine => s.engine = s'.engine
  | .template name => s.templates.find? name = s'.templates.find? name

/-- The slots from which an operation makes what is in a slot behind it. -/
def sources (s : Session) : Operation → Slot → List Slot
  | .compile made _ _, .template name => if made = name then [.engine] else [.template name]
  | .clone source made, .template name =>
    if made = name ∧ (s.templates.find? source).isSome then [.template source]
    else [.template name]
  | .registerPartial template _, .engine =>
    if (s.templates.find? template).isSome then [.engine, .template template] else [.engine]
  | _, slot => [slot]

/-- The slots behind an earlier history from which some later operations, the latest of which
comes first, make what is in a slot in the end. -/
def needs (before : List Operation) : (later : List Operation) → Slot → List Slot
  | [], slot => [slot]
  | op :: later, slot => ((after (later ++ before)).sources op slot).flatMap (needs before later)

/-- A slot that an operation does not change stays as it is. -/
theorem same_perform {op : Operation} {slot : Slot} (h : op.target ≠ slot) (s : Session) :
    ((s.perform op).value).Same s slot := by
  cases slot with
  | engine =>
    rw [Same, engine_perform]
    cases op with
    | configure | install | register | registerPartial => exact absurd rfl h
    | registerOn | compile | clone | configureTemplate => rfl
  | template name =>
    rw [Same, find?_perform]
    cases op with
    | configure | install | register | registerPartial => rfl
    | compile made => exact if_neg fun hname => h (congrArg Slot.template hname)
    | registerOn template | clone template | configureTemplate template =>
      rw [Operation.made?]
      cases s.templates.find? template with
      | none => rfl
      | some t => exact if_neg fun hname => h (congrArg Slot.template hname)

theorem sources_of_ne {op : Operation} {slot : Slot} (h : op.target ≠ slot) (s : Session) :
    s.sources op slot = [slot] := by
  cases op with
  | configure | install | register | registerOn | configureTemplate => rfl
  | compile made =>
    cases slot with
    | engine => rfl
    | template name => exact if_neg fun hname => h (congrArg Slot.template hname)
  | clone source made =>
    cases slot with
    | engine => rfl
    | template name => exact if_neg fun hname => h (congrArg Slot.template hname.1)
  | registerPartial template name =>
    cases slot with
    | engine => exact absurd rfl h
    | template name => rfl

/-- What an operation makes of a slot is made from its sources, in sessions that know the
same names as far as the second one goes. -/
theorem same_perform_of_sources {s s' : Session} (op : Operation) {slot : Slot}
    (hknown : ∀ name, (s'.templates.find? name).isSome → (s.templates.find? name).isSome)
    (h : ∀ source ∈ s.sources op slot, s.Same s' source) :
    ((s.perform op).value).Same (s'.perform op).value slot := by
  have hmissing (name : String) (hfind : s.templates.find? name = none) :
      s'.templates.find? name = none := by
    have hunknown := mt (hknown name)
    simpa [hfind] using hunknown
  by_cases htarget : op.target = slot
  · subst htarget
    cases op with
    | configure | install | register =>
      have hengine : s.engine = s'.engine := h .engine List.mem_cons_self
      simp only [Operation.target, Same, engine_perform, Operation.engine, hengine]
    | registerPartial template name =>
      simp only [Operation.target, sources] at h
      simp only [Operation.target, Same, engine_perform, Operation.engine]
      cases hfind : s.templates.find? template with
      | none =>
        have hengine : s.engine = s'.engine := h .engine (by simp [hfind])
        rw [hmissing template hfind, hengine]
      | some t =>
        have hengine : s.engine = s'.engine := h .engine (by simp [hfind])
        have hsame : s.templates.find? template = s'.templates.find? template :=
          h (.template template) (by simp [hfind])
        rw [← hsame, hfind, hengine]
    | compile made document options =>
      have hengine : s.engine = s'.engine := h .engine (by simp [sources, Operation.target])
      simp only [Operation.target, Same, find?_perform, Operation.made?, hengine, if_true]
    | clone source made =>
      simp only [Operation.target, sources] at h
      simp only [Operation.target, Same, find?_perform, Operation.made?]
      cases hfind : s.templates.find? source with
      | none =>
        have hsame : s.templates.find? made = s'.templates.find? made :=
          h (.template made) (by simp [hfind])
        rw [hmissing source hfind]
        exact hsame
      | some t =>
        have hsame : s.templates.find? source = s'.templates.find? source :=
          h (.template source) (by simp [hfind])
        rw [← hsame, hfind]
        simp only [Option.map_some, if_true]
    | registerOn template | configureTemplate template =>
      have hsame : s.templates.find? template = s'.templates.find? template :=
        h (.template template) List.mem_cons_self
      simp only [Operation.target, Same, find?_perform, Operation.made?, hsame]
  · -- Nothing happens to the slot in either session.
    have hsame : s.Same s' slot := h slot (by rw [sources_of_ne htarget]; exact List.mem_cons_self)
    have hleft := same_perform htarget s
    have hright := same_perform htarget s'
    cases slot with
    | engine => exact hleft.trans (hsame.trans hright.symm)
    | template name => exact hleft.trans (hsame.trans hright.symm)

end Session

/-- A further operation among those of a history takes no name away. -/
theorem isSome_lineage?_insert (op : Operation) {before later : List Operation} {name : String}
    (h : (lineage? (later ++ before) name).isSome) :
    (lineage? (later ++ op :: before) name).isSome := by
  induction later generalizing name with
  | nil =>
    have hbefore : (lineage? before name).isSome := h
    cases op with
    | configure | install | register | registerPartial => exact hbefore
    | compile | clone | registerOn | configureTemplate =>
      simp only [List.nil_append, lineage?]
      split <;> simp [hbefore]
  | cons o later ih =>
    cases o with
    | configure | install | register | registerPartial => exact ih h
    | compile made =>
      simp only [List.cons_append, lineage?] at h ⊢
      by_cases hname : made = name
      · rw [if_pos hname]
        rfl
      · rw [if_neg hname] at h ⊢
        exact ih h
    | clone source made =>
      simp only [List.cons_append, lineage?] at h ⊢
      by_cases hname : made = name
      · rw [if_pos hname, Option.isSome_or, Bool.or_eq_true] at h ⊢
        exact h.imp ih ih
      · rw [if_neg hname] at h ⊢
        exact ih h
    | registerOn template | configureTemplate template =>
      simp only [List.cons_append, lineage?] at h ⊢
      by_cases hname : template = name
      · rw [if_pos hname, Option.isSome_map] at h ⊢
        exact ih h
      · rw [if_neg hname] at h ⊢
        exact ih h

namespace Session

/-- An operation on a slot that a slot does not depend on can be left out. -/
theorem same_of_unneeded {op : Operation} {before : List Operation} (later : List Operation)
    {slot : Slot} (h : op.target ∉ needs (op :: before) later slot) :
    (after (later ++ op :: before)).Same (after (later ++ before)) slot := by
  induction later generalizing slot with
  | nil =>
    rw [List.nil_append, List.nil_append, after_cons]
    exact same_perform (by simpa [needs] using h) _
  | cons o later ih =>
    rw [List.cons_append, List.cons_append, after_cons, after_cons]
    refine same_perform_of_sources o ?_ ?_
    · intro name hname
      rw [find?_after, Option.isSome_map] at hname ⊢
      exact isSome_lineage?_insert op hname
    · intro source hsource
      refine ih ?_
      intro hmem
      exact h (List.mem_flatMap.mpr ⟨source, hsource, hmem⟩)

theorem find?_after_append (past : List Operation) (name : String) {later : List Operation}
    (h : ∀ op ∈ later, op.target ≠ .template name) :
    (after (later ++ past)).templates.find? name = (after past).templates.find? name := by
  induction later with
  | nil => rfl
  | cons op later ih =>
    rw [List.cons_append, after_cons]
    have hsame := same_perform (h op List.mem_cons_self) (after (later ++ past))
    exact hsame.trans (ih fun o ho => h o (List.mem_cons_of_mem _ ho))

/-- A template of a session has what its own history gives it, and nothing else.  Its helpers,
settings and partials are the latest of its lineage, and its observer is the one that was
installed last before it was compiled.  Later operations on the engine and on other templates
leave it as it is, and so does every operation, wherever it stands in the history, that changes
a part of the session on which the template does not depend. -/
theorem templates_follow_history (past : List Operation) (name : String) :
    ((after past).templates.find? name).isSome = (lineage? past name).isSome
      ∧ (∀ t a, (after past).templates.find? name = some t → lineage? past name = some a →
          t.Follows a)
      ∧ (∀ later : List Operation, (∀ op ∈ later, op.target ≠ .template name) →
          (after (later ++ past)).templates.find? name = (after past).templates.find? name)
      ∧ ∀ (before later : List Operation) (op : Operation), past = later ++ op :: before →
          op.target ∉ needs (op :: before) later (.template name) →
          (after past).templates.find? name = (after (later ++ before)).templates.find? name := by
  refine ⟨?_, ?_, fun later h => find?_after_append past name h, ?_⟩
  · rw [find?_after, Option.isSome_map]
  · intro t a ht ha
    rw [find?_after, ha] at ht
    rw [← Option.some.inj ht]
    exact a.follows_template
  · rintro before later op rfl h
    exact same_of_unneeded later h

/-- A helper that answers with a text. -/
def answering (text : String) : Helper := .ofFunction fun _ _ => .ok (.string text)

/-- A page is compiled and cloned; later the engine gets another helper under the name of an
earlier one, and so does the clone.  One observer takes the place of another before the page is
compiled, and a third one that of the second after it. -/
def copyHistory : List Operation :=
  [.registerOn "copy" "mark" (answering "copy"), .install ⟨"third"⟩,
    .register "mark" (answering "late"), .clone "page" "copy", .compile "page" (.array []) .null,
    .install ⟨"second"⟩, .install ⟨"first"⟩, .register "mark" (answering "early")]

/-- The page keeps the helper and the observer that were there when it was compiled, the clone
has a helper of its own, and without what was done to the clone the page is the same. -/
theorem templates_follow_copyHistory :
    (∃ page, (after copyHistory).templates.find? "page" = some page
        ∧ page.helpers.find? "mark" = some (answering "early")
        ∧ page.observer = some ⟨"second"⟩)
      ∧ (∃ copy, (after copyHistory).templates.find? "copy" = some copy
        ∧ copy.helpers.find? "mark" = some (answering "copy"))
      ∧ (after copyHistory).templates.find? "page"
        = (after copyHistory.tail).templates.find? "page" := by
  have hpage : lineage? copyHistory "page"
      = some ⟨.array [], .null,
          [.install ⟨"second"⟩, .install ⟨"first"⟩, .register "mark" (answering "early")], []⟩ :=
    rfl
  have hcopy : lineage? copyHistory "copy"
      = some ⟨.array [], .null,
          [.install ⟨"second"⟩, .install ⟨"first"⟩, .register "mark" (answering "early")],
          [.registerOn "copy" "mark" (answering "copy")]⟩ := rfl
  refine ⟨?_, ?_, ?_⟩
  · obtain ⟨hknown, hfollows, _⟩ := templates_follow_history copyHistory "page"
    rw [hpage] at hknown
    obtain ⟨page, hfind⟩ := Option.isSome_iff_exists.mp hknown
    have hpageFollows := hfollows page _ hfind hpage
    exact ⟨page, hfind, hpageFollows.helper "mark", hpageFollows.observer⟩
  · obtain ⟨hknown, hfollows, _⟩ := templates_follow_history copyHistory "copy"
    rw [hcopy] at hknown
    obtain ⟨copy, hfind⟩ := Option.isSome_iff_exists.mp hknown
    exact ⟨copy, hfind, (hfollows copy _ hfind hcopy).helper "mark"⟩
  · have hneeds := (templates_follow_history copyHistory "page").2.2.2 copyHistory.tail []
      (.registerOn "copy" "mark" (answering "copy")) rfl
    exact hneeds (by simp [needs, Operation.target])

end Session

end DocTemplate
