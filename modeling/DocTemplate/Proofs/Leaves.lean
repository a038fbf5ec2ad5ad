/-
The leaves of a template that are pipelines.

`IsLeaf` says of a document and a binding that the binding is the pipeline of a
text that stands in the document at the binding's path, below the root.  The
bindings of a template are found by going down the document once:

* `Binding.mem_ofTemplate_iff` — what is found are exactly these leaves.

The members of an object are looked up by their keys, so documents are
well-formed here: no key stands twice in an object.
-/
import DocTemplate.Json.Update
import DocTemplate.Pipeline.Binding

namespace DocTemplate

namespace Entries

variable {α : Type}

/-- Of ascending keys each has the one value that stands beside it. -/
theorem find?_eq_some_iff {es : Entries α} (h : Ascending es) {key : String} {value : α} :
    es.find? key = some value ↔ (key, value) ∈ es := by
  induction es with
  | nil => simp
  | cons e es ih =>
    obtain ⟨k, v⟩ := e
    obtain ⟨hfirst, hrest⟩ := List.pairwise_cons.mp h
    rw [find?, List.mem_cons, Prod.mk.injEq]
    split
    next hk =>
      subst hk
      have habsent : (k, value) ∉ es := fun hmem => String.lt_irrefl k (hfirst _ hmem)
      simp [habsent, eq_comm]
    next hk => simp [ih hrest, Ne.symm hk]

end Entries

theorem Json.text?_eq_some_iff {doc : Json} {s : String} :
    doc.text? = some s ↔ doc = .string s := by
  cases doc <;> simp [Json.text?]

theorem Json.wellFormed_object_texts {members : List (String × Json)}
    (hkeys : Entries.Ascending members) (h : ∀ m ∈ members, m.2.text?.isSome) :
    (Json.object members).WellFormed := by
  refine .object hkeys ?_
  intro m hm
  obtain ⟨text, htext⟩ := Option.isSome_iff_exists.mp (h m hm)
  rw [text?_eq_some_iff.mp htext]
  exact .string text

/-- A binding is the pipeline of a text below the root of a document. -/
def IsLeaf (document : Json) (b : Binding) : Prop :=
  b.path ≠ [] ∧ ∃ text, document.at? b.path = some (.string text)
    ∧ Binding.ofLeaf? text b.path = some b

namespace Binding

theorem path_eq_of_ofLeaf? {text : String} {path : Path} {b : Binding}
    (h : ofLeaf? text path = some b) : b.path = path := by
  obtain ⟨_, _, rfl⟩ := Option.map_eq_some_iff.mp h
  rfl

theorem mem_belowItems {path : Path} {first : Nat} {items : List Json} {b : Binding} :
    b ∈ belowItems path first items
      ↔ ∃ i item, items[i]? = some item ∧ b ∈ below (path.child (.index (first + i))) item := by
  induction items generalizing first with
  | nil => simp [belowItems]
  | cons item items ih =>
    rw [belowItems, List.mem_append, ih]
    constructor
    · rintro (h | ⟨i, other, hi, h⟩)
      · exact ⟨0, item, rfl, h⟩
      · refine ⟨i + 1, other, hi, ?_⟩
        rwa [show first + (i + 1) = first + 1 + i by omega]
    · rintro ⟨i, other, hi, h⟩
      cases i with
      | zero =>
        obtain rfl : item = other := by simpa using hi
        exact .inl h
      | succ i =>
        refine .inr ⟨i, other, hi, ?_⟩
        rwa [show first + 1 + i = first + (i + 1) by omega]

theorem mem_belowMembers {path : Path} {members : List (String × Json)} {b : Binding} :
    b ∈ belowMembers path members
      ↔ ∃ m ∈ members, b ∈ below (path.child (.name m.1)) m.2 := by
  induction members with
  | nil => simp [belowMembers]
  | cons m members ih => simp [belowMembers, ih]

/-- What is found below a place that is no text is found one step below it. -/
theorem mem_below_iff_child {doc : Json} (h : doc.WellFormed) (hdoc : doc.text? = none)
    {path : Path} {b : Binding} :
    b ∈ below path doc
      ↔ ∃ key part, doc.child? key = some part ∧ b ∈ below (path.child key) part := by
  cases h with
  | null | bool | number => simp [below, Json.child?]
  | string s => simp [Json.text?] at hdoc
  | @array items _ =>
    rw [below, mem_belowItems]
    constructor
    · rintro ⟨i, item, hi, hb⟩
      exact ⟨.index i, item, hi, by simpa using hb⟩
    · rintro ⟨key, item, hi, hb⟩
      cases key with
      | index i => exact ⟨i, item, hi, by simpa using hb⟩
      | name text => simp [Json.child?] at hi
  | @object members hkeys _ =>
    rw [below, mem_belowMembers]
    constructor
    · rintro ⟨m, hm, hb⟩
      exact ⟨.name m.1, m.2, (Entries.find?_eq_some_iff hkeys).mpr hm, hb⟩
    · rintro ⟨key, part, hpart, hb⟩
      cases key with
      | index i => simp [Json.child?] at hpart
      | name text => exact ⟨(text, part), (Entries.find?_eq_some_iff hkeys).mp hpart, hb⟩

end Binding

/-- A part one step below a well-formed document is well-formed, and smaller. -/
theorem Json.WellFormed.child {doc part : Json} {key : Path.Key} (h : doc.WellFormed)
    (hpart : doc.child? key = some part) : part.WellFormed ∧ sizeOf part < sizeOf doc := by
  cases h with
  | null | bool | number | string => simp [Json.child?] at hpart
  | @array items h =>
    cases key with
    | index i =>
      have hmem : part ∈ items := List.mem_of_getElem? hpart
      refine ⟨h part hmem, ?_⟩
      have := List.sizeOf_lt_of_mem hmem
      simp
      omega
    | name text => simp [Json.child?] at hpart
  | @object members hkeys h =>
    cases key with
    | index i => simp [Json.child?] at hpart
    | name text =>
      have hmem := (Entries.find?_eq_some_iff hkeys).mp hpart
      refine ⟨h _ hmem, ?_⟩
      have := List.sizeOf_lt_of_mem hmem
      simp at this ⊢
      omega

namespace Binding

/-- What is found below a place are the pipelines of the texts below it. -/
theorem mem_below_iff {doc : Json} (h : doc.WellFormed) {path : Path} {b : Binding} :
    b ∈ below path doc
      ↔ ∃ rest text, b.path = path ++ rest ∧ doc.at? rest = some (.string text)
          ∧ ofLeaf? text b.path = some b := by
  induction hn : sizeOf doc using Nat.strongRecOn generalizing doc path with
  | ind n ih =>
    cases hdoc : doc.text? with
    | some s =>
      obtain rfl := Json.text?_eq_some_iff.mp hdoc
      rw [below, Option.mem_toList]
      constructor
      · intro hb
        have hpath := path_eq_of_ofLeaf? hb
        exact ⟨[], s, by simp [hpath], Json.at?_nil _, by rwa [hpath]⟩
      · rintro ⟨rest, text, hpath, hat, hb⟩
        cases rest with
        | nil =>
          obtain rfl : s = text := by simpa using hat
          rwa [hpath, List.append_nil] at hb
        | cons key rest => simp [Json.at?, Json.child?] at hat
    | none =>
      rw [mem_below_iff_child h hdoc]
      constructor
      · rintro ⟨key, part, hpart, hb⟩
        obtain ⟨hwf, hlt⟩ := h.child hpart
        obtain ⟨rest, text, hpath, hat, hb⟩ := (ih _ (hn ▸ hlt) hwf rfl).mp hb
        refine ⟨key :: rest, text, by simp [hpath, Path.child], ?_, hb⟩
        simp [Json.at?, hpart, hat]
      · rintro ⟨rest, text, hpath, hat, hb⟩
        cases rest with
        | nil =>
          obtain rfl : doc = .string text := by simpa using hat
          simp [Json.text?] at hdoc
        | cons key rest =>
          obtain ⟨part, hpart, hat⟩ := Option.bind_eq_some_iff.mp hat
          obtain ⟨hwf, hlt⟩ := h.child hpart
          refine ⟨key, part, hpart, (ih _ (hn ▸ hlt) hwf rfl).mpr ⟨rest, text, ?_, hat, hb⟩⟩
          simp [hpath, Path.child]

theorem ofTemplate_eq_below {document : Json} (h : document.text? = none) :
    ofTemplate document = below [] document := by
  cases document with
  | string s => simp [Json.text?] at h
  | null | bool | number | array | object => rfl

/-- The bindings of a template are its leaves that are pipelines. -/
theorem mem_ofTemplate_iff {document : Json} (h : document.WellFormed) {b : Binding} :
    b ∈ ofTemplate document ↔ IsLeaf document b := by
  cases hdoc : document.text? with
  | some s =>
    obtain rfl := Json.text?_eq_some_iff.mp hdoc
    constructor
    · intro hb
      simp [ofTemplate] at hb
    · rintro ⟨hne, text, hat, _⟩
      -- A text has no parts.
      cases hpath : b.path with
      | nil => exact absurd hpath hne
      | cons key rest => simp [hpath, Json.at?, Json.child?] at hat
  | none =>
    rw [ofTemplate_eq_below hdoc, mem_below_iff h]
    constructor
    · rintro ⟨rest, text, hpath, hat, hb⟩
      obtain rfl : b.path = rest := hpath
      refine ⟨fun hnil => ?_, text, hat, hb⟩
      rw [hnil, Json.at?_nil] at hat
      obtain rfl : document = .string text := by simpa using hat
      simp [Json.text?] at hdoc
    · rintro ⟨_, text, hat, hb⟩
      exact ⟨b.path, text, rfl, hat, hb⟩

end Binding

end DocTemplate
