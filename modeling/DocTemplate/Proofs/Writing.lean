/-
Writing at a path.

`Json.write` gives a document in which a value stands at a path.  `Json.assign` is
the same done in place: it goes down to the container that the path ends in, changes
this container, and leaves every container on the way with the part that it then has.
Main facts:

* `write_eq_ok_iff_hasPlaceAt` — there is a place at the root, below a container under
  a key that fits it, and nowhere else;
* `at?_write`, `at?_write_of_not_overlaps` — the value is read at its path, and what
  lies beside the path is read as before;
* `write_of_at?`, `write_of_write` — a value that is there already changes nothing, and
  of two values at one path the second stays;
* `assign_eq` — in place the same document comes about, and a failure leaves the
  document as it was.
-/
import DocTemplate.Error
import DocTemplate.Proofs.Leaves

namespace DocTemplate

/-! ### Entries -/

namespace Entries

variable {α : Type}

theorem put_put (es : Entries α) (key : String) (old value : α) :
    (es.put key old).put key value = es.put key value := by
  induction es with
  | nil => simp [put]
  | cons e es ih =>
    obtain ⟨k, v⟩ := e
    by_cases hk : k = key
    · simp [put, hk]
    · by_cases hlt : key < k <;> simp [put, hk, hlt, ih]

/-- A value that stands under its key already changes nothing. -/
theorem put_of_find? {es : Entries α} (h : Ascending es) {key : String} {value : α}
    (hvalue : es.find? key = some value) : es.put key value = es := by
  induction es with
  | nil => simp at hvalue
  | cons e es ih =>
    obtain ⟨k, v⟩ := e
    obtain ⟨hfirst, hrest⟩ := List.pairwise_cons.mp h
    by_cases hk : k = key
    · obtain rfl : v = value := by simpa [find?, hk] using hvalue
      simp [put, hk]
    · have hbehind : find? es key = some value := by simpa [find?, hk] using hvalue
      -- The keys ascend, and `key` stands behind the first one.
      have hlt : k < key := hfirst _ ((find?_eq_some_iff hrest).mp hbehind)
      have hnlt : ¬ key < k := fun hn => String.lt_irrefl k (String.lt_trans hlt hn)
      simp [put, hk, hnlt, ih hrest hbehind]

end Entries

/-! ### Overlaps -/

namespace Path

@[simp] theorem nil_overlaps (q : Path) : overlaps [] q = true := by simp [overlaps]

@[simp] theorem overlaps_nil (p : Path) : overlaps p [] = true := by simp [overlaps]

@[simp] theorem cons_overlaps_cons (k l : Key) (p q : Path) :
    overlaps (k :: p) (l :: q) = (decide (k = l) && overlaps p q) := by
  have hmin : min (p.length + 1) (q.length + 1) = min p.length q.length + 1 := by omega
  rw [Bool.eq_iff_iff]
  simp [overlaps, hmin]

end Path

namespace Json

variable {doc part value result : Json} {key : Path.Key} {path : Path}

/-! ### One step below the root -/

/-- Whether a document is a container with a place under a key: an object has one
under every name, an array up to right behind its last item. -/
def HasPlace : Json → Path.Key → Prop
  | .object _, .name _ => True
  | .array items, .index i => i ≤ items.length
  | _, _ => False

theorem writeChild_eq_ok_iff_hasPlace (doc : Json) (key : Path.Key) (value : Json) :
    (∃ result, doc.writeChild key value = .ok result) ↔ doc.HasPlace key := by
  cases doc with
  | object members => cases key <;> simp [writeChild, HasPlace]
  | array items =>
    cases key with
    | name text => simp [writeChild, HasPlace]
    | index i =>
      rw [writeChild, HasPlace]
      split
      · simp; omega
      · split
        · simp; omega
        · simp; omega
  | null | bool | number | string => simp [writeChild, HasPlace]

/-- A part that is there has a place. -/
theorem hasPlace_of_child? (h : doc.child? key = some part) : doc.HasPlace key := by
  cases doc with
  | object members =>
    cases key with
    | name text => trivial
    | index i => simp [child?] at h
  | array items =>
    cases key with
    | name text => simp [child?] at h
    | index i =>
      obtain ⟨hi, _⟩ := List.getElem?_eq_some_iff.mp h
      exact Nat.le_of_lt hi
  | null | bool | number | string => simp [child?] at h

/-- A written part is read under its key, and the others are read as before. -/
theorem child?_writeChild (h : doc.writeChild key value = .ok result) (other : Path.Key) :
    result.child? other = if key = other then some value else doc.child? other := by
  cases doc with
  | object members =>
    cases key with
    | index i => simp [writeChild] at h
    | name text =>
      obtain rfl := Except.ok.inj h
      cases other with
      | index i => simp [child?]
      | name other => simp [child?, Entries.find?_put]
  | array items =>
    cases key with
    | name text => simp [writeChild] at h
    | index i =>
      rw [writeChild] at h
      split at h
      next hlt =>
        obtain rfl := Except.ok.inj h
        cases other with
        | name text => simp [child?]
        | index j => simp [child?, List.getElem?_set, hlt]
      next hnlt =>
        split at h
        next hlast =>
          obtain rfl := Except.ok.inj h
          cases other with
          | name text => simp [child?]
          | index j =>
            simp only [child?, Path.Key.index.injEq]
            by_cases hj : i = j
            · simp [← hj, hlast]
            · rw [if_neg hj]
              by_cases hbelow : j < items.length
              · rw [List.getElem?_append_left hbelow]
              · rw [List.getElem?_eq_none (by simp; omega), List.getElem?_eq_none (by omega)]
        next => simp at h
  | null | bool | number | string => simp [writeChild] at h

theorem writeChild_of_writeChild (h : doc.writeChild key value = .ok result) (next : Json) :
    result.writeChild key next = doc.writeChild key next := by
  cases doc with
  | object members =>
    cases key with
    | index i => simp [writeChild] at h
    | name text =>
      obtain rfl := Except.ok.inj h
      simp [writeChild, Entries.put_put]
  | array items =>
    cases key with
    | name text => simp [writeChild] at h
    | index i =>
      rw [writeChild] at h
      split at h
      next hlt =>
        obtain rfl := Except.ok.inj h
        simp [writeChild, hlt]
      next hnlt =>
        split at h
        next hlast =>
          obtain rfl := Except.ok.inj h
          -- The value appended first is replaced.
          simp [writeChild, hlast]
        next => simp at h
  | null | bool | number | string => simp [writeChild] at h

/-- A part that is there already changes nothing. -/
theorem writeChild_of_child? (hwf : doc.WellFormed) (h : doc.child? key = some part) :
    doc.writeChild key part = .ok doc := by
  cases hwf with
  | null | bool | number | string => simp [child?] at h
  | @array items _ =>
    cases key with
    | name text => simp [child?] at h
    | index i =>
      obtain ⟨hi, rfl⟩ := List.getElem?_eq_some_iff.mp h
      simp [writeChild, hi]
  | @object members hkeys _ =>
    cases key with
    | index i => simp [child?] at h
    | name text => rw [writeChild, Entries.put_of_find? hkeys h]

/-! ### Down a path -/

/-- Writing below a part that is there writes in this part. -/
theorem write_cons_of_child? (h : doc.child? key = some part) (path : Path) (value : Json) :
    doc.write (key :: path) value = (part.write path value).bind (doc.writeChild key) := by
  cases path with
  | nil => simp [write, Except.bind]
  | cons next path =>
    rw [write, h]
    rfl

theorem write_cons_of_missing (h : doc.child? key = none) (hpath : path ≠ []) (value : Json) :
    doc.write (key :: path) value = .error (.missingContainer key) := by
  obtain ⟨next, path, rfl⟩ := List.exists_cons_of_ne_nil hpath
  rw [write, h]

/-- What it takes to write below the root: a place for what is written under the first
key, which is the value itself or a part that is there, with the value written in it. -/
theorem write_cons_eq_ok_iff :
    doc.write (key :: path) value = .ok result
      ↔ ∃ next, doc.writeChild key next = .ok result
          ∧ ((path = [] ∧ next = value)
            ∨ ∃ part, doc.child? key = some part ∧ part.write path value = .ok next) := by
  by_cases hpath : path = []
  · subst hpath
    constructor
    · intro h
      exact ⟨value, h, .inl ⟨rfl, rfl⟩⟩
    · rintro ⟨next, h, ⟨_, rfl⟩ | ⟨part, _, hnext⟩⟩
      · exact h
      · obtain rfl : value = next := by simpa using hnext
        exact h
  · cases hpart : doc.child? key with
    | none => simp [write_cons_of_missing hpart hpath, hpath]
    | some part =>
      rw [write_cons_of_child? hpart]
      cases hwritten : part.write path value <;> simp [hwritten, hpath, Except.bind]

/-- Whether a document has a place for a value at a path: at its root, or under a last
key that fits the container that the keys before it lead to. -/
def HasPlaceAt (doc : Json) (path : Path) : Prop :=
  path = [] ∨ ∃ parents last container, path = parents ++ [last]
    ∧ doc.at? parents = some container ∧ container.HasPlace last

theorem hasPlaceAt_singleton : doc.HasPlaceAt [key] ↔ doc.HasPlace key := by
  constructor
  · rintro (h | ⟨parents, last, container, hpath, hat, hplace⟩)
    · simp at h
    · obtain ⟨rfl, hlast⟩ := List.append_eq_singleton_iff.mp hpath.symm |>.resolve_right (by simp)
      obtain rfl : doc = container := by simpa using hat
      obtain rfl : last = key := by simpa using hlast
      exact hplace
  · intro h
    exact .inr ⟨[], key, doc, rfl, at?_nil doc, h⟩

/-- Below the root there is a place where the part under the first key has one. -/
theorem hasPlaceAt_cons (hpath : path ≠ []) :
    doc.HasPlaceAt (key :: path) ↔ ∃ part, doc.child? key = some part ∧ part.HasPlaceAt path := by
  constructor
  · rintro (h | ⟨parents, last, container, hsplit, hat, hplace⟩)
    · simp at h
    · cases parents with
      | nil => simp_all
      | cons first parents =>
        obtain ⟨rfl, rfl⟩ := List.cons.inj hsplit
        obtain ⟨part, hpart, hat⟩ := Option.bind_eq_some_iff.mp hat
        exact ⟨part, hpart, .inr ⟨parents, last, container, rfl, hat, hplace⟩⟩
  · rintro ⟨part, hpart, h | ⟨parents, last, container, rfl, hat, hplace⟩⟩
    · exact absurd h hpath
    · refine .inr ⟨key :: parents, last, container, rfl, ?_, hplace⟩
      simp [at?, hpart, hat]

/-- A value can be written exactly where there is a place for it. -/
theorem write_eq_ok_iff_hasPlaceAt (doc : Json) (path : Path) (value : Json) :
    (∃ result, doc.write path value = .ok result) ↔ doc.HasPlaceAt path := by
  induction path generalizing doc with
  | nil => simp [HasPlaceAt]
  | cons key path ih =>
    by_cases hpath : path = []
    · subst hpath
      rw [hasPlaceAt_singleton, ← writeChild_eq_ok_iff_hasPlace, write]
    · simp only [hasPlaceAt_cons hpath, write_cons_eq_ok_iff, hpath, false_and, false_or, ← ih]
      constructor
      · rintro ⟨result, next, _, part, hpart, hnext⟩
        exact ⟨part, hpart, next, hnext⟩
      · rintro ⟨part, hpart, next, hnext⟩
        obtain ⟨result, hresult⟩ :=
          (writeChild_eq_ok_iff_hasPlace doc key next).mpr (hasPlace_of_child? hpart)
        exact ⟨result, next, hresult, part, hpart, hnext⟩

/-- A written value is read at its path. -/
theorem at?_write (h : doc.write path value = .ok result) : result.at? path = some value := by
  induction path generalizing doc result with
  | nil => simpa [eq_comm] using h
  | cons key path ih =>
    obtain ⟨next, hwrite, hnext⟩ := write_cons_eq_ok_iff.mp h
    have hchild : result.child? key = some next := by simp [child?_writeChild hwrite]
    have hat : next.at? path = some value := by
      rcases hnext with ⟨rfl, rfl⟩ | ⟨part, _, hpart⟩
      · exact at?_nil next
      · exact ih hpart
    simp [at?, hchild, hat]

/-- What lies beside a path is read as before after a write at the path. -/
theorem at?_write_of_not_overlaps (h : doc.write path value = .ok result) {other : Path}
    (hother : path.overlaps other = false) : result.at? other = doc.at? other := by
  induction path generalizing doc result other with
  | nil => simp at hother
  | cons key path ih =>
    obtain ⟨next, hwrite, hnext⟩ := write_cons_eq_ok_iff.mp h
    cases other with
    | nil => simp at hother
    | cons otherKey other =>
      rw [at?, at?, child?_writeChild hwrite]
      by_cases hkey : key = otherKey
      · -- Both paths go through the same part, so they part below it.
        subst hkey
        have hbelow : Path.overlaps path other = false := by simpa using hother
        rcases hnext with ⟨rfl, _⟩ | ⟨part, hpart, hnext⟩
        · simp at hbelow
        · simpa [hpart] using ih hnext hbelow
      · rw [if_neg hkey]

/-- A value that stands at a path already changes nothing when it is written there. -/
theorem write_of_at? (hwf : doc.WellFormed) (h : doc.at? path = some value) :
    doc.write path value = .ok doc := by
  induction path generalizing doc with
  | nil => simpa [eq_comm] using h
  | cons key path ih =>
    obtain ⟨part, hpart, hat⟩ := Option.bind_eq_some_iff.mp h
    rw [write_cons_of_child? hpart, ih (hwf.child hpart).1 hat]
    exact writeChild_of_child? hwf hpart

/-- Of two values written at a path the second stays. -/
theorem write_of_write (h : doc.write path value = .ok result) (next : Json) :
    result.write path next = doc.write path next := by
  induction path generalizing doc result with
  | nil => simp
  | cons key path ih =>
    obtain ⟨written, hwrite, hwritten⟩ := write_cons_eq_ok_iff.mp h
    have hchild : result.child? key = some written := by simp [child?_writeChild hwrite]
    rw [write_cons_of_child? hchild, funext (writeChild_of_writeChild hwrite)]
    rcases hwritten with ⟨rfl, _⟩ | ⟨part, hpart, hwritten⟩
    · simp [write, Except.bind]
    · rw [write_cons_of_child? hpart, ih hwritten]

/-! ### In place -/

/-- A container with another part in the place of the one under a key. -/
def replaceChild : Json → Path.Key → Json → Json
  | .object members, .name key, part => .object (Entries.put members key part)
  | .array items, .index i, part => .array (items.set i part)
  | doc, _, _ => doc

theorem replaceChild_of_child? (hwf : doc.WellFormed) (h : doc.child? key = some part) :
    doc.replaceChild key part = doc := by
  cases hwf with
  | null | bool | number | string => simp [child?] at h
  | @array items _ =>
    cases key with
    | name text => rfl
    | index i =>
      obtain ⟨hi, rfl⟩ := List.getElem?_eq_some_iff.mp h
      simp [replaceChild]
  | @object members hkeys _ =>
    cases key with
    | index i => rfl
    | name text => rw [replaceChild, Entries.put_of_find? hkeys h]

/-- In the place of a part that is there another one is written. -/
theorem writeChild_eq_replaceChild (h : doc.child? key = some part) (next : Json) :
    doc.writeChild key next = .ok (doc.replaceChild key next) := by
  cases doc with
  | object members =>
    cases key with
    | name text => rfl
    | index i => simp [child?] at h
  | array items =>
    cases key with
    | name text => simp [child?] at h
    | index i =>
      obtain ⟨hi, _⟩ := List.getElem?_eq_some_iff.mp h
      simp [writeChild, replaceChild, hi]
  | null | bool | number | string => simp [child?] at h

/-- Put a value at a path of a document in place: how it went, and the document as it
is left.  Every container on the way keeps whatever has become of its part. -/
def assignWithin : Json → Path → Json → Except WriteFault Unit × Json
  | _, [], value => (.ok (), value)
  | doc, [key], value =>
    match doc.writeChild key value with
    | .ok doc => (.ok (), doc)
    | .error fault => (.error fault, doc)
  | doc, key :: next :: path, value =>
    match doc.child? key with
    | none => (.error (.missingContainer key), doc)
    | some part =>
      let (outcome, part) := part.assignWithin (next :: path) value
      (outcome, doc.replaceChild key part)

/-- Put a value at a path of a document in place; a fault becomes an error that names
the path. -/
def assign (doc : Json) (path : Path) (value : Json) : Except Error Unit × Json :=
  let (outcome, doc) := doc.assignWithin path value
  (outcome.mapError (Error.ofWriteFault path), doc)

theorem assignWithin_eq (hwf : doc.WellFormed) (path : Path) (value : Json) :
    doc.assignWithin path value
      = match doc.write path value with
        | .ok result => (.ok (), result)
        | .error fault => (.error fault, doc) := by
  induction path generalizing doc with
  | nil => simp [assignWithin]
  | cons key path ih =>
    cases path with
    | nil => simp [assignWithin, write]
    | cons next path =>
      rw [assignWithin]
      cases hpart : doc.child? key with
      | none => simp [write_cons_of_missing hpart]
      | some part =>
        simp only [write_cons_of_child? hpart, ih (hwf.child hpart).1]
        cases hwrite : part.write (next :: path) value with
        | ok written => simp [Except.bind, writeChild_eq_replaceChild hpart]
        -- The part is left as it was, and so is what holds it.
        | error fault => simp [Except.bind, replaceChild_of_child? hwf hpart]

/-- In place the same document comes about, and a failure leaves the document as it
was. -/
theorem assign_eq (hwf : doc.WellFormed) (path : Path) (value : Json) :
    doc.assign path value
      = match doc.write path value with
        | .ok result => (.ok (), result)
        | .error fault => (.error (.ofWriteFault path fault), doc) := by
  rw [assign, assignWithin_eq hwf]
  cases doc.write path value <;> rfl

/-! ### The laws of writing -/

/-- What holds of writing values at a path of a document. -/
structure LawfulAt (doc : Json) (path : Path) : Prop where
  /-- A value can be written exactly where there is a place for it. -/
  succeeds_iff : ∀ value, (∃ result, doc.write path value = .ok result) ↔ doc.HasPlaceAt path
  /-- What is written comes about in place. -/
  succeeds : ∀ value result, doc.write path value = .ok result →
    doc.assign path value = (.ok (), result)
  /-- A failure names the path and leaves the document as it was. -/
  fails : ∀ value fault, doc.write path value = .error fault →
    doc.assign path value = (.error (.unwritable path.display fault.message), doc)
  /-- A written value is read at its path. -/
  reads : ∀ value result, doc.write path value = .ok result → result.at? path = some value
  /-- What lies beside the path is read as before. -/
  frame : ∀ value result other, doc.write path value = .ok result →
    path.overlaps other = false → result.at? other = doc.at? other
  /-- A value that is there already changes nothing. -/
  keeps : ∀ value, doc.at? path = some value → doc.write path value = .ok doc
  /-- Of two written values the second stays. -/
  again : ∀ value result next, doc.write path value = .ok result →
    result.write path next = doc.write path next

/-- Writing at a path obeys its laws in every document and at every path. -/
theorem write_lawfulAt (doc : Json) (path : Path) (hwf : doc.WellFormed) : doc.LawfulAt path := by
  constructor
  · intro value
    exact write_eq_ok_iff_hasPlaceAt doc path value
  · intro value result h
    rw [assign_eq hwf, h]
  · intro value fault h
    rw [assign_eq hwf, h]
    rfl
  · intro value result h
    exact at?_write h
  · intro value result other h hother
    exact at?_write_of_not_overlaps h hother
  · intro value h
    exact write_of_at? hwf h
  · intro value result next h
    exact write_of_write h next

/-- An object with an array that a value is appended to. -/
def appendable : Json := .object [("list", .array [.null]), ("name", .null)]

theorem wellFormed_appendable : appendable.WellFormed := by
  refine .object (List.pairwise_pair.mpr (by decide)) ?_
  intro m hm
  simp only [List.mem_cons, List.not_mem_nil, or_false] at hm
  rcases hm with rfl | rfl
  · exact .array (by simpa using .null)
  · exact .null

/-- Right behind the last item there is a place, two behind it there is none. -/
theorem write_appendable : appendable.WellFormed
    ∧ (∃ result, appendable.write [.name "list", .index 1] (.bool true) = .ok result
      ∧ result.at? [.name "list", .index 1] = some (.bool true)
      ∧ result.at? [.name "name"] = some .null)
    ∧ appendable.assign [.name "list", .index 2] .null
      = (.error (.unwritable "list.2" "cannot write key 2 into array of length 1"),
          appendable) := by
  have hlast := write_lawfulAt appendable [.name "list", .index 1] wellFormed_appendable
  have hfar := write_lawfulAt appendable [.name "list", .index 2] wellFormed_appendable
  refine ⟨wellFormed_appendable, ?_, ?_⟩
  · obtain ⟨result, hresult⟩ := (hlast.succeeds_iff (.bool true)).mpr
      (.inr ⟨[.name "list"], .index 1, .array [.null], rfl, by rfl, Nat.le_refl 1⟩)
    refine ⟨result, hresult, hlast.reads _ _ hresult, ?_⟩
    rw [hlast.frame _ _ [.name "name"] hresult (by decide)]
    rfl
  · exact hfar.fails .null (.keyIntoArray (.index 2) 1) (by rfl)

end Json

end DocTemplate
