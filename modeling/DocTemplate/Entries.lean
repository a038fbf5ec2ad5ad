/-
Finite maps with text keys, kept as lists in ascending key order.

`put` inserts or replaces, `find?` reads; the order of keys is that of their
code points, which is also the order of their UTF-8 bytes.  Main facts:

* `find?_put` — reading after a write;
* `ascending_put` — writing keeps the keys strictly ascending.
-/
namespace DocTemplate

universe u

/-- Keys with their values, keys ascending. -/
abbrev Entries (α : Type u) := List (String × α)

namespace Entries

variable {α : Type u}

/-- The keys in order. -/
def keys (es : Entries α) : List String := es.map Prod.fst

/-- The value under a key. -/
def find? : Entries α → String → Option α
  | [], _ => none
  | (k, v) :: es, key => if k = key then some v else find? es key

/-- Whether there is a value under a key. -/
def contains (es : Entries α) (key : String) : Bool := (es.find? key).isSome

/-- Write a value under a key, in place of the one there or at the key's place
in the order. -/
def put : Entries α → String → α → Entries α
  | [], key, value => [(key, value)]
  | (k, v) :: es, key, value =>
    if k = key then (key, value) :: es
    -- The keys ascend, so `key` is absent when it lies below the first one.
    else if key < k then (key, value) :: (k, v) :: es
    else (k, v) :: put es key value

/-- Entries from a list in any order; of several values under one key the last
one stays. -/
def ofList (l : List (String × α)) : Entries α :=
  l.foldl (fun es e => es.put e.1 e.2) []

/-- The keys are strictly ascending. -/
def Ascending (es : Entries α) : Prop := es.Pairwise (fun a b => a.1 < b.1)

@[simp] theorem find?_nil (key : String) : find? ([] : Entries α) key = none := rfl

theorem find?_put (es : Entries α) (key other : String) (value : α) :
    (es.put key value).find? other = if key = other then some value else es.find? other := by
  induction es with
  | nil => rfl
  | cons e es ih =>
    obtain ⟨k, v⟩ := e
    simp only [put]
    split
    · subst_vars; simp only [find?]; split <;> rfl
    · split
      · simp only [find?]
      -- The write goes further down, and `k` is not the key written.
      · simp only [find?, ih]
        split
        · subst_vars; rw [if_neg (fun h => ‹¬_› h.symm)]
        · rfl

theorem mem_put {es : Entries α} {key : String} {value : α} {e : String × α}
    (h : e ∈ es.put key value) : e = (key, value) ∨ e ∈ es := by
  induction es with
  | nil => simpa [put] using h
  | cons a es ih =>
    simp only [put] at h
    split at h
    · rcases List.mem_cons.mp h with h | h <;> simp [h]
    · split at h
      · rcases List.mem_cons.mp h with h | h <;> simp [h]
      · rcases List.mem_cons.mp h with h | h
        · simp [h]
        · rcases ih h with h | h <;> simp [h]

theorem ascending_put {es : Entries α} (h : Ascending es) (key : String) (value : α) :
    Ascending (es.put key value) := by
  induction es with
  | nil => simp [put, Ascending]
  | cons e es ih =>
    obtain ⟨k, v⟩ := e
    have hc := List.pairwise_cons.mp h
    simp only [put]
    split
    · subst_vars
      exact List.pairwise_cons.mpr ⟨hc.1, hc.2⟩
    · rename_i hne
      split
      · rename_i hlt
        refine List.pairwise_cons.mpr ⟨fun a ha => ?_, h⟩
        rcases List.mem_cons.mp ha with rfl | ha
        · exact hlt
        · exact String.lt_trans hlt (hc.1 a ha)
      · rename_i hnlt
        refine List.pairwise_cons.mpr ⟨fun a ha => ?_, ih hc.2⟩
        rcases mem_put ha with rfl | ha
        · exact Classical.byContradiction fun hn =>
            hne (String.le_antisymm (String.not_lt.mp hnlt) (String.not_lt.mp hn))
        · exact hc.1 a ha

end Entries

end DocTemplate
