/-
Writing in any order.

Two writes at paths that do not overlap leave each other alone.  One of them may replace or
lengthen a container on the way of the other, but never the part that the other goes through,
so the other finds its place behind it as before; and in either order the same document comes
about.  Main facts:

* `Json.write_comm` — two writes, in either order;
* `Json.Admits.writeAll_perm` — any number of writes, in any order: behind every one of them
  there is still a place for those that are left;
* `Json.writes_in_any_order` — so it is with the results of the bindings of a template.
-/
import DocTemplate.Proofs.DocumentOrder
import Mathlib.Data.String.Basic
import Mathlib.Order.Defs.LinearOrder

namespace DocTemplate

/-! ### One step below the root -/

namespace Entries

variable {α : Type}

theorem put_comm_of_lt (es : Entries α) {key other : String} (h : key < other) (value next : α) :
    (es.put key value).put other next = (es.put other next).put key value := by
  have hne : key ≠ other := h.ne
  have hnlt : ¬ other < key := h.not_gt
  induction es with
  | nil => simp [put, h, hne, hne.symm, hnlt]
  | cons e es ih =>
    obtain ⟨k, v⟩ := e
    rcases lt_trichotomy k key with hk | rfl | hk
    · -- Both go on behind the first entry.
      have hother : k < other := hk.trans h
      simp [put, hk.ne, hk.not_gt, hother.ne, hother.not_gt, ih]
    · simp [put, hne, hnlt]
    · -- The smaller key stops here, wherever the greater one does.
      rcases lt_trichotomy k other with hother | rfl | hother
      · simp [put, hk, hk.ne', hne, hnlt, hother.ne, hother.not_gt]
      · simp [put, h, hne, hne.symm, hnlt]
      · simp [put, h, hk, hk.ne', hne, hne.symm, hnlt, hother, hother.ne']

/-- Values under two keys may be written in either order. -/
theorem put_comm (es : Entries α) {key other : String} (h : key ≠ other) (value next : α) :
    (es.put key value).put other next = (es.put other next).put key value := by
  rcases lt_or_gt_of_ne h with hlt | hgt
  · exact put_comm_of_lt es hlt value next
  · exact (put_comm_of_lt es hgt next value).symm

end Entries

namespace Json

variable {doc first second value next : Json}

theorem writeChild_index_eq_ok_iff {items : List Json} {i : Nat} :
    (Json.array items).writeChild (.index i) value = .ok first
      ↔ i < items.length ∧ first = .array (items.set i value)
        ∨ i = items.length ∧ first = .array (items ++ [value]) := by
  rw [writeChild]
  split
  next hlt => simp [hlt, hlt.ne, eq_comm]
  next hnlt =>
    split
    next hlast => simp [hlast, eq_comm]
    next hlast => simp [hlast, hnlt]

/-- Parts under two keys may be written in either order; of two that are written to one
array at most one is appended. -/
theorem writeChild_comm {key other : Path.Key} (h : key ≠ other)
    (hfirst : doc.writeChild key value = .ok first)
    (hsecond : doc.writeChild other next = .ok second) :
    ∃ both, first.writeChild other next = .ok both ∧ second.writeChild key value = .ok both := by
  cases doc with
  | null | bool | number | string => simp [writeChild] at hfirst
  | object members =>
    cases key with
    | index i => simp [writeChild] at hfirst
    | name key =>
      cases other with
      | index i => simp [writeChild] at hsecond
      | name other =>
        obtain rfl := Except.ok.inj hfirst
        obtain rfl := Except.ok.inj hsecond
        have hkeys : key ≠ other := fun heq => h (congrArg Path.Key.name heq)
        refine ⟨_, rfl, ?_⟩
        rw [writeChild, Entries.put_comm members hkeys]
  | array items =>
    cases key with
    | name key => simp [writeChild] at hfirst
    | index i =>
      cases other with
      | name other => simp [writeChild] at hsecond
      | index j =>
        have hij : i ≠ j := fun heq => h (congrArg Path.Key.index heq)
        simp only [writeChild_index_eq_ok_iff] at hfirst hsecond
        rcases hfirst with ⟨hi, rfl⟩ | ⟨hi, rfl⟩
        · rcases hsecond with ⟨hj, rfl⟩ | ⟨hj, rfl⟩
          · refine ⟨.array ((items.set i value).set j next), ?_, ?_⟩
            · exact writeChild_index_eq_ok_iff.mpr (.inl ⟨by simpa using hj, rfl⟩)
            · rw [List.set_comm _ _ hij]
              exact writeChild_index_eq_ok_iff.mpr (.inl ⟨by simpa using hi, rfl⟩)
          · refine ⟨.array (items.set i value ++ [next]), ?_, ?_⟩
            · exact writeChild_index_eq_ok_iff.mpr (.inr ⟨by simpa using hj, rfl⟩)
            · rw [← List.set_append_left _ _ hi]
              exact writeChild_index_eq_ok_iff.mpr (.inl ⟨by simp; omega, rfl⟩)
        · rcases hsecond with ⟨hj, rfl⟩ | ⟨hj, rfl⟩
          · refine ⟨.array (items.set j next ++ [value]), ?_, ?_⟩
            · rw [← List.set_append_left _ _ hj]
              exact writeChild_index_eq_ok_iff.mpr (.inl ⟨by simp; omega, rfl⟩)
            · exact writeChild_index_eq_ok_iff.mpr (.inr ⟨by simpa using hi, rfl⟩)
          · exact absurd (hi.trans hj.symm) hij

/-! ### Down two paths -/

/-- Two writes that both succeed, at paths that do not overlap, succeed behind each other as
well, and give the same document in either order. -/
theorem write_comm {p q : Path} (hapart : p.overlaps q = false)
    (hfirst : doc.write p value = .ok first) (hsecond : doc.write q next = .ok second) :
    ∃ both, first.write q next = .ok both ∧ second.write p value = .ok both := by
  induction p generalizing doc first second q with
  | nil => simp at hapart
  | cons key p ih =>
    cases q with
    | nil => simp at hapart
    | cons other q =>
      obtain ⟨left, hleft, hbelow⟩ := write_cons_eq_ok_iff.mp hfirst
      obtain ⟨right, hright, hbelow'⟩ := write_cons_eq_ok_iff.mp hsecond
      by_cases hkey : key = other
      · -- Both go through one part, so they part below it.
        subst hkey
        have hrest : Path.overlaps p q = false := by simpa using hapart
        rcases hbelow with ⟨rfl, _⟩ | ⟨part, hpart, hleftPart⟩
        · simp at hrest
        rcases hbelow' with ⟨rfl, _⟩ | ⟨part', hpart', hrightPart⟩
        · simp at hrest
        obtain rfl : part = part' := Option.some.inj (hpart.symm.trans hpart')
        obtain ⟨written, hwritten, hwritten'⟩ := ih hrest hleftPart hrightPart
        obtain ⟨both, hboth⟩ :=
          (writeChild_eq_ok_iff_hasPlace doc key written).mpr (hasPlace_of_child? hpart)
        refine ⟨both, write_cons_eq_ok_iff.mpr ⟨written, ?_, .inr ⟨left, ?_, hwritten⟩⟩,
          write_cons_eq_ok_iff.mpr ⟨written, ?_, .inr ⟨right, ?_, hwritten'⟩⟩⟩
        · rw [writeChild_of_writeChild hleft, hboth]
        · simp [child?_writeChild hleft]
        · rw [writeChild_of_writeChild hright, hboth]
        · simp [child?_writeChild hright]
      · -- Neither write touches the part that the other one goes through.
        obtain ⟨both, hboth, hboth'⟩ := writeChild_comm hkey hleft hright
        refine ⟨both, write_cons_eq_ok_iff.mpr ⟨right, hboth, ?_⟩,
          write_cons_eq_ok_iff.mpr ⟨left, hboth', ?_⟩⟩
        · rwa [child?_writeChild hleft, if_neg hkey]
        · rwa [child?_writeChild hright, if_neg (Ne.symm hkey)]

end Json

/-! ### All writes -/

/-- Values can be written at some paths, each by itself, and no two of the paths overlap. -/
structure Json.Admits (doc : Json) (ws : List (Path × Json)) : Prop where
  writes : ∀ w ∈ ws, ∃ result, doc.write w.1 w.2 = .ok result
  apart : ws.Pairwise fun w u => Path.overlaps w.1 u.1 = false

namespace Json.Admits

variable {doc : Json} {w : Path × Json} {ws us : List (Path × Json)}

theorem perm (h : doc.Admits ws) (hperm : ws.Perm us) : doc.Admits us :=
  ⟨fun u hu => h.writes u (hperm.mem_iff.mpr hu),
    (hperm.pairwise_iff fun {w u} h => by rwa [Path.overlaps_comm]).mp h.apart⟩

/-- What is left to be written can be written behind the first write as well. -/
theorem exists_next (h : doc.Admits (w :: ws)) :
    ∃ next, doc.write w.1 w.2 = .ok next ∧ next.Admits ws := by
  obtain ⟨hfirst, hrest⟩ := List.pairwise_cons.mp h.apart
  obtain ⟨next, hnext⟩ := h.writes w (by simp)
  refine ⟨next, hnext, ?_, hrest⟩
  intro u hu
  obtain ⟨other, hother⟩ := h.writes u (List.mem_cons_of_mem _ hu)
  obtain ⟨both, hboth, _⟩ := write_comm (hfirst u hu) hnext hother
  exact ⟨both, hboth⟩

theorem exists_writeAll (h : doc.Admits ws) : ∃ result, writeAll doc ws = .ok result := by
  induction ws generalizing doc with
  | nil => exact ⟨doc, rfl⟩
  | cons w ws ih =>
    obtain ⟨next, hnext, hrest⟩ := h.exists_next
    obtain ⟨result, hresult⟩ := ih hrest
    exact ⟨result, by simp [writeAll, hnext, hresult]⟩

/-- The first two writes may change places. -/
theorem writeAll_swap {u : Path × Json} (h : doc.Admits (w :: u :: ws)) :
    writeAll doc (w :: u :: ws) = writeAll doc (u :: w :: ws) := by
  obtain ⟨hfirst, _⟩ := List.pairwise_cons.mp h.apart
  obtain ⟨left, hleft⟩ := h.writes w (by simp)
  obtain ⟨right, hright⟩ := h.writes u (by simp)
  obtain ⟨both, hboth, hboth'⟩ := write_comm (hfirst u (by simp)) hleft hright
  simp [writeAll, hleft, hright, hboth, hboth']

/-- In any order the same document comes about. -/
theorem writeAll_perm (h : doc.Admits ws) (hperm : ws.Perm us) :
    writeAll doc ws = writeAll doc us := by
  induction hperm generalizing doc with
  | nil => rfl
  | cons w _ ih =>
    obtain ⟨next, hnext, hrest⟩ := h.exists_next
    simp [writeAll, hnext, ih hrest]
  | swap u w ws => exact h.writeAll_swap
  | trans hleft _ ihleft ihright => exact (ihleft h).trans (ihright (h.perm hleft))

end Json.Admits

/-! ### The bindings of a template -/

/-- A value can be written in the place of every binding of a template. -/
theorem Binding.exists_write_ofTemplate {document : Json} (h : document.WellFormed) {b : Binding}
    (hb : b ∈ ofTemplate document) (value : Json) :
    ∃ result, document.write b.path value = .ok result := by
  obtain ⟨_, text, hat, _⟩ := (mem_ofTemplate_iff h).mp hb
  rw [Json.write_eq_ok_iff_hasPlaceAt,
    ← Json.write_eq_ok_iff_hasPlaceAt document b.path (.string text)]
  exact ⟨document, Json.write_of_at? h hat⟩

/-- Whatever values the bindings of a template get, written in any order into its skeleton
they make up the document that is assembled from them. -/
def Template.WritesInAnyOrder (t : Template) : Prop :=
  ∀ values, values.length = t.bindings.length →
    ∃ doc, t.scene.assemble values = .ok doc
      ∧ ∀ writes, writes.Perm ((t.bindings.map Binding.path).zip values) →
          writeAll t.skeleton writes = .ok doc

theorem Engine.writesInAnyOrder_compile (e : Engine) {document : Json} (options : Json)
    (h : document.WellFormed) : (e.compile document options).value.WritesInAnyOrder := by
  intro values hlength
  have hadmits : document.Admits (((Binding.ofTemplate document).map Binding.path).zip values) := by
    constructor
    · intro w hw
      obtain ⟨b, hb, hpath⟩ := List.mem_map.mp (List.of_mem_zip hw).1
      rw [← hpath]
      exact Binding.exists_write_ofTemplate h hb w.2
    · have hpaths : (((Binding.ofTemplate document).map Binding.path).zip values).map Prod.fst
          = (Binding.ofTemplate document).map Binding.path := by
        rw [List.map_fst_zip]
        rw [List.length_map, hlength]
        exact Nat.le_refl _
      have hapart : ((Binding.ofTemplate document).map Binding.path).Pairwise
          fun p q => p.overlaps q = false := List.pairwise_map.mpr (Binding.apart_ofTemplate h)
      rw [← hpaths] at hapart
      exact List.pairwise_map.mp hapart
  obtain ⟨doc, hdoc⟩ := hadmits.exists_writeAll
  refine ⟨doc, hdoc, ?_⟩
  intro writes hperm
  exact (hadmits.writeAll_perm hperm.symm).symm.trans hdoc

/-- The order of writes never matters: neither to two of them at paths that do not overlap,
in any document, nor to the results of the bindings of a template. -/
theorem Json.writes_in_any_order (document : Json) :
    (∀ (p q : Path) (value next first second : Json), p.overlaps q = false →
        document.write p value = .ok first → document.write q next = .ok second →
        ∃ both, first.write q next = .ok both ∧ second.write p value = .ok both)
      ∧ (document.WellFormed → ∀ (e : Engine) (options : Json),
          (e.compile document options).value.WritesInAnyOrder) := by
  constructor
  · intro p q value next first second hapart hfirst hsecond
    exact write_comm hapart hfirst hsecond
  · intro h e options
    exact e.writesInAnyOrder_compile options h

/-- An item that is replaced and one that is appended behind it; and the results of two
bindings, the second of which is written first. -/
theorem Json.writes_in_any_order_appendable :
    (∃ both, (Json.object [("list", .array [.bool true]), ("name", .null)]).write
          [.name "list", .index 1] (.bool false) = .ok both
        ∧ (Json.object [("list", .array [.null, .bool false]), ("name", .null)]).write
          [.name "list", .index 0] (.bool true) = .ok both)
      ∧ scatteredDocument.WellFormed
      ∧ ∃ doc, (Engine.initial.compile scatteredDocument .null).value.scene.assemble
            [.bool true, .bool false] = .ok doc
          ∧ writeAll scatteredDocument [([.name "member", .name "inner"], .bool false),
              ([.name "list", .index 1], .bool true)] = .ok doc := by
  refine ⟨?_, wellFormed_scatteredDocument, ?_⟩
  · exact (writes_in_any_order appendable).1 [.name "list", .index 0] [.name "list", .index 1]
      (.bool true) (.bool false) _ _ (by decide) (by rfl) (by rfl)
  · obtain ⟨doc, hdoc, hwrites⟩ := (writes_in_any_order scatteredDocument).2
      wellFormed_scatteredDocument Engine.initial .null [.bool true, .bool false] (by rfl)
    exact ⟨doc, hdoc, hwrites _ (List.Perm.swap _ _ _)⟩

end DocTemplate
