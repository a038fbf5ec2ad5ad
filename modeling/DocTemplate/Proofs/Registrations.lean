/-
What registries answer after any history.

A family of registries grows by copies, and its members share nothing but the built-in
helpers.  What a member has is read off the history by looking back along it: what was
registered with the member itself, and before it was copied with the one it was copied from.

* `Registry.Family.registrations` — the names and helpers that were registered for a member,
  the latest first;
* `Registry.Answers` — the queries of a registry against what was registered for it.

Main facts:

* `Registry.Follows.answers` — four queries, each with its own way through the entries, agree
  with what was registered;
* `Registry.Family.follows_after` — every member follows the history;
* `Registry.Family.queries_follow_history` — both together; what is registered under a name
  stays there, and operations on one member leave the others alone.
-/
import DocTemplate.Proofs.History

namespace DocTemplate

/-! ### Keys -/

namespace Entries

variable {α : Type}

theorem mem_keys_iff {es : Entries α} {key : String} : key ∈ es.keys ↔ (es.find? key).isSome := by
  induction es with
  | nil => simp [keys]
  | cons e es ih =>
    obtain ⟨k, v⟩ := e
    rw [keys, List.map_cons, List.mem_cons, find?]
    by_cases hkey : k = key
    · simp [hkey]
    · rw [if_neg hkey, ← ih, keys]
      simp [Ne.symm hkey]

theorem Ascending.keys {es : Entries α} (h : Ascending es) : es.keys.Pairwise (· < ·) :=
  List.pairwise_map.mpr h

end Entries

/-! ### Queries -/

namespace Registry

/-- The entries of a registry are those of what was registered. -/
structure Follows (r : Registry) (registered : Entries Helper) : Prop where
  find : ∀ name, r.own.find? name = registered.find? name
  ascending : r.own.Ascending

/-- What a registry answers when some helpers were registered, the latest first. -/
structure Answers (r : Registry) (registered : Entries Helper) : Prop where
  find : ∀ name, r.find? name = (registered.find? name).or (Helper.builtIn.find? name)
  contains : ∀ name, r.contains name = true ↔ (r.find? name).isSome
  names : ∀ name, name ∈ r.names ↔ (r.find? name).isSome
  isBuiltIn : ∀ name, r.isBuiltIn name = true
    ↔ name ∈ Helper.builtIn.keys ∧ name ∉ registered.keys
  /-- Ascending strictly, names do not repeat. -/
  ascending : r.names.Pairwise (· < ·)

/-- The entries of a registry with those built-in helpers that they do not hide. -/
def completed (own builtIn : Entries Helper) : Entries Helper :=
  builtIn.foldl (fun es (name, h) => if es.contains name then es else es.put name h) own

theorem names_eq (r : Registry) : r.names = (completed r.own Helper.builtIn).keys := rfl

theorem completed_cons (own : Entries Helper) (name : String) (helper : Helper)
    (builtIn : Entries Helper) : completed own ((name, helper) :: builtIn)
      = completed (if own.contains name then own else own.put name helper) builtIn := rfl

theorem find?_completed (own builtIn : Entries Helper) (name : String) :
    (completed own builtIn).find? name = (own.find? name).or (builtIn.find? name) := by
  induction builtIn generalizing own with
  | nil => simp [completed]
  | cons e builtIn ih =>
    obtain ⟨k, helper⟩ := e
    rw [completed_cons, ih, Entries.find?]
    by_cases hknown : own.contains k
    · rw [if_pos hknown]
      by_cases hname : k = name
      · subst hname
        obtain ⟨h, hfind⟩ := Option.isSome_iff_exists.mp hknown
        rw [hfind, Option.some_or, Option.some_or]
      · rw [if_neg hname]
    · rw [if_neg hknown, Entries.find?_put]
      by_cases hname : k = name
      · subst hname
        have hmissing : own.find? k = none := by simpa [Entries.contains] using hknown
        rw [if_pos rfl, if_pos rfl, hmissing, Option.none_or, Option.some_or]
      · rw [if_neg hname, if_neg hname]

theorem ascending_completed {own : Entries Helper} (h : own.Ascending) (builtIn : Entries Helper) :
    (completed own builtIn).Ascending := by
  induction builtIn generalizing own with
  | nil => exact h
  | cons e builtIn ih =>
    obtain ⟨k, helper⟩ := e
    rw [completed_cons]
    by_cases hknown : own.contains k
    · rw [if_pos hknown]
      exact ih h
    · rw [if_neg hknown]
      exact ih (Entries.ascending_put h k helper)

theorem isSome_find? (r : Registry) (name : String) :
    (r.find? name).isSome = ((r.own.find? name).isSome || (Helper.builtIn.find? name).isSome) := by
  rw [Registry.find?, Option.isSome_or]

/-- All queries look at what was registered, and then at what is built in. -/
theorem Follows.answers {r : Registry} {registered : Entries Helper} (h : r.Follows registered) :
    r.Answers registered := by
  constructor
  · intro name
    rw [Registry.find?, h.find]
  · intro name
    rw [isSome_find?]
    exact Iff.rfl
  · intro name
    rw [names_eq, Entries.mem_keys_iff, find?_completed, Registry.find?]
  · intro name
    rw [Entries.mem_keys_iff, Entries.mem_keys_iff, ← h.find, isBuiltIn, Entries.contains,
      Entries.contains]
    simp [and_comm]
  · exact (ascending_completed h.ascending Helper.builtIn).keys

theorem Follows.register {r : Registry} {registered : Entries Helper} (h : r.Follows registered)
    (name : String) (helper : Helper) :
    (r.register name helper).Follows ((name, helper) :: registered) := by
  refine ⟨?_, Entries.ascending_put h.ascending name helper⟩
  intro other
  show (r.own.put name helper).find? other = _
  rw [Entries.find?_put, Entries.find?, h.find]

end Registry

namespace Registry.Family

/-! ### Histories -/

/-- The family behind some operations, the latest of which comes first. -/
def after (past : List Operation) : Family := initial.performAll past.reverse

theorem after_cons (op : Operation) (past : List Operation) :
    after (op :: past) = (after past).perform op := by
  rw [after, after, performAll, performAll, List.reverse_cons, List.foldl_append]
  rfl

/-- The number of registries behind a history; a registry that is not there is not copied. -/
def size : List Operation → Nat
  | [] => 1
  | .fork member :: past => if member < size past then size past + 1 else size past
  | .register .. :: past | .alias .. :: past => size past

namespace Operation

/-- The member that an operation registers something with. -/
def target? : Operation → Option Nat
  | .register member .. | .alias member .. => some member
  | .fork _ => none

/-- The name and the helper that an operation registers, by what is found under the names. -/
def entry? (find? : String → Option Helper) : Operation → Option (String × Helper)
  | .register _ name helper => some (name, helper)
  | .alias _ new old => (find? old).map fun helper => (new, helper)
  | .fork _ => none

/-- The member from which an operation on some registries makes a member: a copy comes from its
origin, any other member from itself. -/
def origin (size i : Nat) : Operation → Nat
  | .fork member => if i = size then member else i
  | .register .. | .alias .. => i

/-- An operation registers something under a name with a member. -/
def Names (member : Nat) (name : String) : Operation → Prop
  | .register m new _ | .alias m new _ => m = member ∧ new = name
  | .fork _ => False

end Operation

/-- The helper under a name, when some helpers were registered. -/
def resolve (registered : Entries Helper) (name : String) : Option Helper :=
  (registered.find? name).or (Helper.builtIn.find? name)

/-- The names and helpers that were registered for a member, the latest first.  A copy goes on
with what was registered for its origin up to then. -/
def registrations : List Operation → Nat → Entries Helper
  | [], _ => []
  | op :: past, i =>
    let earlier := registrations past (op.origin (size past) i)
    if op.target? = some i then (op.entry? (resolve earlier)).toList ++ earlier else earlier

theorem size_le_append (later past : List Operation) : size past ≤ size (later ++ past) := by
  induction later with
  | nil => exact Nat.le_refl _
  | cons op later ih =>
    refine Nat.le_trans ih ?_
    cases op with
    | register | «alias» => exact Nat.le_refl _
    | fork member =>
      rw [List.cons_append, size]
      split <;> omega

theorem origin_of_lt {size i : Nat} (h : i < size) (op : Operation) : op.origin size i = i := by
  cases op with
  | register | «alias» => rfl
  | fork member => exact if_neg (Nat.ne_of_lt h)

/-- What was registered under a name counts until something else is. -/
theorem find?_registrations_append {past later : List Operation} {i : Nat} {name : String}
    (hi : i < size past) (h : ∀ op ∈ later, ¬ op.Names i name) :
    (registrations (later ++ past) i).find? name = (registrations past i).find? name := by
  induction later with
  | nil => rfl
  | cons op later ih =>
    have hrest := ih fun o ho => h o (List.mem_cons_of_mem _ ho)
    have hother := h op List.mem_cons_self
    have hlt : i < size (later ++ past) := Nat.lt_of_lt_of_le hi (size_le_append later past)
    rw [List.cons_append, registrations, origin_of_lt hlt, ← hrest]
    by_cases htarget : op.target? = some i
    · rw [if_pos htarget]
      cases op with
      | register member new helper =>
        have hname : new ≠ name := fun heq => hother ⟨Option.some.inj htarget, heq⟩
        exact if_neg hname
      | «alias» member new old =>
        have hname : new ≠ name := fun heq => hother ⟨Option.some.inj htarget, heq⟩
        rw [Operation.entry?]
        cases resolve (registrations (later ++ past) i) old with
        | none => rfl
        | some helper => exact if_neg hname
      | fork member => simp [Operation.target?] at htarget
    · rw [if_neg htarget]

/-! ### Members -/

theorem length_after (past : List Operation) : (after past).length = size past := by
  induction past with
  | nil => rfl
  | cons op past ih =>
    rw [after_cons]
    cases op with
    | register member name helper => rw [perform, change, List.length_modify, ih, size]
    | «alias» member new old => rw [perform, change, List.length_modify, ih, size]
    | fork member =>
      rw [perform, List.length_append, ih, size]
      by_cases hmember : member < size past
      · rw [if_pos hmember, List.getElem?_eq_getElem (by rwa [ih])]
        rfl
      · rw [if_neg hmember, List.getElem?_eq_none (by omega)]
        rfl

/-- A registry with an entry that is registered with it, if there is one. -/
def extended (r : Registry) : Option (String × Helper) → Registry
  | some (name, helper) => r.register name helper
  | none => r

/-- An operation makes every member from its origin, and registers its entry with one. -/
theorem getElem?_after_cons (op : Operation) (past : List Operation) {i : Nat}
    (hi : i < size (op :: past)) :
    (after (op :: past))[i]? = (after past)[op.origin (size past) i]?.map fun r =>
      if op.target? = some i then extended r (op.entry? r.find?) else r := by
  rw [after_cons]
  cases op with
  | register member name helper =>
    rw [perform, change, List.getElem?_modify]
    simp only [Operation.target?, Option.some.injEq]
    rfl
  | «alias» member new old =>
    rw [perform, change, List.getElem?_modify]
    simp only [Operation.target?, Option.some.injEq, Operation.origin]
    congr 1
    funext r
    split
    · rw [Operation.entry?, alias?]
      cases r.find? old <;> rfl
    · rfl
  | fork member =>
    have hsame (o : Option Registry) : o.map (fun r =>
        if Operation.target? (.fork member) = some i then
          extended r (Operation.entry? r.find? (.fork member)) else r) = o := by
      cases o <;> rfl
    rw [hsame, perform, Operation.origin]
    have hlength := length_after past
    by_cases hnew : i = size past
    · rw [if_pos hnew, hnew, ← hlength, List.getElem?_append_right (Nat.le_refl _), Nat.sub_self]
      cases (after past)[member]? <;> rfl
    · rw [if_neg hnew]
      rw [size] at hi
      have hlt : i < size past := by
        split at hi <;> omega
      exact List.getElem?_append_left (by rwa [hlength])

/-- Every member follows the history. -/
theorem follows_after {past : List Operation} {i : Nat} {r : Registry}
    (h : (after past)[i]? = some r) : r.Follows (registrations past i) := by
  induction past generalizing i r with
  | nil =>
    have hinitial : r = .initial := by
      cases i with
      | zero => exact (Option.some.inj h).symm
      | succ i => simp [after, performAll, initial] at h
    rw [hinitial]
    exact ⟨fun _ => rfl, List.Pairwise.nil⟩
  | cons op past ih =>
    have hi : i < size (op :: past) := by
      rw [← length_after]
      exact (List.getElem?_eq_some_iff.mp h).1
    rw [getElem?_after_cons op past hi] at h
    obtain ⟨s, hs, rfl⟩ := Option.map_eq_some_iff.mp h
    have hfollows := ih hs
    rw [registrations]
    by_cases htarget : op.target? = some i
    · rw [if_pos htarget, if_pos htarget]
      have hfind : s.find? = resolve (registrations past (op.origin (size past) i)) :=
        funext hfollows.answers.find
      rw [hfind]
      cases op.entry? (resolve (registrations past (op.origin (size past) i))) with
      | none => exact hfollows
      | some entry => exact hfollows.register entry.1 entry.2
    · rw [if_neg htarget, if_neg htarget]
      exact hfollows

/-- Operations on other members leave a member as it is. -/
theorem getElem?_after_append {past later : List Operation} {i : Nat} (hi : i < size past)
    (h : ∀ op ∈ later, op.target? ≠ some i) : (after (later ++ past))[i]? = (after past)[i]? := by
  induction later with
  | nil => rfl
  | cons op later ih =>
    have hlt : i < size (later ++ past) := Nat.lt_of_lt_of_le hi (size_le_append later past)
    have hop : i < size (op :: (later ++ past)) :=
      Nat.lt_of_lt_of_le hi (size_le_append (op :: later) past)
    have hrest := ih fun o ho => h o (List.mem_cons_of_mem _ ho)
    rw [List.cons_append, getElem?_after_cons op _ hop, origin_of_lt hlt, hrest]
    simp only [h op List.mem_cons_self, if_false, Option.map_id']

/-- Registries answer by their own histories.  A member has what was registered last under a
name with itself or, before it was copied, with the one it was copied from, and else what is
built in; all its queries agree with that.  What an operation registers under a name stays
there until something else is registered under this name, whatever becomes of the name that it
was found under.  A copy begins with what its origin has, and from then on operations on other
members change neither of them. -/
theorem queries_follow_history (past : List Operation) :
    (after past).length = size past
      ∧ ∀ i r, (after past)[i]? = some r →
        r.Answers (registrations past i)
        ∧ (∀ op name helper later, op.target? = some i → op.entry? r.find? = some (name, helper) →
            (∀ o ∈ later, ¬ o.Names i name) →
            ∃ s, (after (later ++ op :: past))[i]? = some s ∧ s.find? name = some helper)
        ∧ (after (.fork i :: past))[size past]? = some r
        ∧ ∀ later, (∀ op ∈ later, op.target? ≠ some i) →
            (after (later ++ past))[i]? = some r := by
  refine ⟨length_after past, ?_⟩
  intro i r h
  have hi : i < size past := by
    rw [← length_after]
    exact (List.getElem?_eq_some_iff.mp h).1
  refine ⟨(follows_after h).answers, ?_, ?_, ?_⟩
  · intro op name helper later htarget hentry hlater
    have hop : i < size (op :: past) := Nat.lt_of_lt_of_le hi (size_le_append [op] past)
    obtain ⟨s, hs⟩ : ∃ s, (after (later ++ op :: past))[i]? = some s := by
      refine ⟨_, List.getElem?_eq_getElem ?_⟩
      rw [length_after]
      exact Nat.lt_of_lt_of_le hop (size_le_append later _)
    refine ⟨s, hs, ?_⟩
    have hfind : r.find? = resolve (registrations past i) := funext (follows_after h).answers.find
    rw [(follows_after hs).answers.find, find?_registrations_append hop hlater, registrations,
      origin_of_lt hi, if_pos htarget, ← hfind, hentry]
    simp [Entries.find?]
  · have hsize : size past < size (.fork i :: past) := by
      rw [size, if_pos hi]
      exact Nat.lt_succ_self _
    rw [getElem?_after_cons _ _ hsize, Operation.origin, if_pos rfl, h]
    rfl
  · intro later hlater
    rw [getElem?_after_append hi hlater, h]

/-- A registry is copied, and a built-in helper of the origin is hidden afterwards. -/
def hiddenSince : List Operation := [.register 0 "reduce" (Session.answering "own"), .fork 0]

/-- The alias that was made before still stands for the built-in helper; the copy has the alias
as well, and for the copy `reduce` is built in. -/
theorem queries_follow_hiddenSince :
    (∃ r, (after (hiddenSince ++ [.alias 0 "sum" "reduce"]))[0]? = some r
        ∧ r.find? "sum" = some Helper.passOn ∧ r.isBuiltIn "reduce" = false)
      ∧ ∃ copy, (after (hiddenSince ++ [.alias 0 "sum" "reduce"]))[1]? = some copy
        ∧ copy.find? "sum" = some Helper.passOn ∧ copy.isBuiltIn "reduce" = true
        ∧ copy.names.Pairwise (· < ·) := by
  let past : List Operation := hiddenSince ++ [.alias 0 "sum" "reduce"]
  constructor
  · obtain ⟨r, hr, hfind⟩ := ((queries_follow_history []).2 0 .initial rfl).2.1
      (.alias 0 "sum" "reduce") "sum" Helper.passOn hiddenSince rfl rfl
      (by simp [hiddenSince, Operation.Names])
    obtain ⟨hanswers, _⟩ := (queries_follow_history past).2 0 r hr
    refine ⟨r, hr, hfind, ?_⟩
    rw [Bool.eq_false_iff, ne_eq, hanswers.isBuiltIn]
    decide
  · obtain ⟨copy, hcopy⟩ : ∃ copy, (after past)[1]? = some copy := ⟨_, rfl⟩
    obtain ⟨hanswers, _⟩ := (queries_follow_history past).2 1 copy hcopy
    refine ⟨copy, hcopy, hanswers.find "sum", ?_, hanswers.ascending⟩
    rw [hanswers.isBuiltIn]
    decide

end Registry.Family

end DocTemplate
