/-
The order in which a template is gone through.

`Path.Before` orders the paths of a document depth first: where two paths part, the
one with the smaller key is before the other.  A path that leads through another one
is neither before nor behind it, so paths of which one is before the other do not
overlap.  Main facts:

* `Binding.ordered_ofTemplate` — the bindings of a template stand in the order of the
  document;
* `Binding.apart_ofTemplate` — no two of them overlap, so each can be written without
  disturbing the others;
* `Engine.compile_finds` — the bindings of a compiled template are its leaves in
  backticks, each once;
* `Template.at?_of_substitutes` — what a leaf gives is read at its path in a rendered
  document.
-/
import DocTemplate.Proofs.Substitution
import DocTemplate.Proofs.Writing

namespace DocTemplate

/-! ### The order of a document -/

namespace Path

/-- A key is before another one in a container. -/
def Key.Before : Key → Key → Prop
  | .index i, .index j => i < j
  | .name s, .name t => s < t
  | _, _ => False

instance (k l : Key) : Decidable (k.Before l) :=
  match k, l with
  | .index i, .index j => inferInstanceAs (Decidable (i < j))
  | .name s, .name t => inferInstanceAs (Decidable (s < t))
  | .index _, .name _ | .name _, .index _ => isFalse id

theorem Key.Before.ne {k l : Key} (h : k.Before l) : k ≠ l := by
  rintro rfl
  cases k with
  | index i => exact Nat.lt_irrefl i h
  | name s => exact String.lt_irrefl s h

/-- A path is before another one in a document: its key is, where the two part. -/
def Before : Path → Path → Prop
  | k :: p, l :: q => k.Before l ∨ k = l ∧ Before p q
  | _, _ => False

instance decidableBefore : (p q : Path) → Decidable (Before p q)
  | k :: p, l :: q =>
    have := decidableBefore p q
    inferInstanceAs (Decidable (k.Before l ∨ k = l ∧ Before p q))
  | [], _ => isFalse id
  | _ :: _, [] => isFalse id

/-- Indices go by number, not by digits. -/
example : Before [.name "list", .index 2] [.name "list", .index 10, .name "a"] := by decide

theorem Before.append_left {p q : Path} (h : Before p q) (front : Path) :
    Before (front ++ p) (front ++ q) := by
  induction front with
  | nil => exact h
  | cons key front ih => exact Or.inr ⟨rfl, ih⟩

theorem Before.child {k l : Key} (h : k.Before l) (front p q : Path) :
    Before (front.child k ++ p) (front.child l ++ q) := by
  have hpart : Before (k :: p) (l :: q) := Or.inl h
  simpa [Path.child] using hpart.append_left front

theorem overlaps_comm (p q : Path) : overlaps p q = overlaps q p := by
  rw [overlaps, overlaps, Nat.min_comm, Bool.beq_comm]

theorem overlaps_self (p : Path) : overlaps p p = true := by simp [overlaps]

/-- Paths that part do not overlap. -/
theorem Before.not_overlaps {p q : Path} (h : Before p q) : overlaps p q = false := by
  induction p generalizing q with
  | nil => exact absurd h id
  | cons k p ih =>
    cases q with
    | nil => exact absurd h id
    | cons l q =>
      rcases h with hkey | ⟨rfl, hrest⟩
      · simp [hkey.ne]
      · simp [ih hrest]

end Path

/-! ### Bindings in order -/

namespace Binding

/-- A binding stands before another one in the document. -/
def Before (a b : Binding) : Prop := Path.Before a.path b.path

theorem path_of_mem_below {doc : Json} (h : doc.WellFormed) {path : Path} {b : Binding}
    (hb : b ∈ below path doc) : ∃ rest, b.path = path ++ rest := by
  obtain ⟨rest, _, hpath, _⟩ := (mem_below_iff h).mp hb
  exact ⟨rest, hpath⟩

/-- What is found below one key of a container is before what is found below a later
one. -/
theorem before_of_keys {k l : Path.Key} (h : k.Before l) {part other : Json}
    (hpart : part.WellFormed) (hother : other.WellFormed) {path : Path} {a b : Binding}
    (ha : a ∈ below (path.child k) part) (hb : b ∈ below (path.child l) other) : a.Before b := by
  obtain ⟨p, hp⟩ := path_of_mem_below hpart ha
  obtain ⟨q, hq⟩ := path_of_mem_below hother hb
  rw [Before, hp, hq]
  exact Path.Before.child h path p q

theorem ordered_belowItems {items : List Json} (hwf : ∀ item ∈ items, item.WellFormed)
    (h : ∀ item ∈ items, ∀ path, (below path item).Pairwise Before) (path : Path) (first : Nat) :
    (belowItems path first items).Pairwise Before := by
  induction items generalizing first with
  | nil => exact .nil
  | cons item items ih =>
    have hrest := ih (fun i hi => hwf i (List.mem_cons_of_mem _ hi))
      (fun i hi => h i (List.mem_cons_of_mem _ hi)) (first + 1)
    refine List.pairwise_append.mpr ⟨h item (by simp) _, hrest, ?_⟩
    intro a ha b hb
    obtain ⟨i, other, hi, hb⟩ := mem_belowItems.mp hb
    have hkey : Path.Key.Before (.index first) (.index (first + 1 + i)) := by
      show first < first + 1 + i
      omega
    exact before_of_keys hkey (hwf item (by simp))
      (hwf other (List.mem_cons_of_mem _ (List.mem_of_getElem? hi))) ha hb

theorem ordered_belowMembers {members : List (String × Json)} (hkeys : Entries.Ascending members)
    (hwf : ∀ m ∈ members, m.2.WellFormed)
    (h : ∀ m ∈ members, ∀ path, (below path m.2).Pairwise Before) (path : Path) :
    (belowMembers path members).Pairwise Before := by
  induction members with
  | nil => exact .nil
  | cons m members ih =>
    obtain ⟨key, part⟩ := m
    obtain ⟨hfirst, hascending⟩ := List.pairwise_cons.mp hkeys
    have hrest := ih hascending (fun n hn => hwf n (List.mem_cons_of_mem _ hn))
      (fun n hn => h n (List.mem_cons_of_mem _ hn))
    refine List.pairwise_append.mpr ⟨h (key, part) (by simp) _, hrest, ?_⟩
    intro a ha b hb
    obtain ⟨n, hn, hb⟩ := mem_belowMembers.mp hb
    have hkey : Path.Key.Before (.name key) (.name n.1) := hfirst n hn
    exact before_of_keys hkey (hwf (key, part) (by simp)) (hwf n (List.mem_cons_of_mem _ hn)) ha hb

/-- What is found below a place stands in the order of the document. -/
theorem ordered_below {doc : Json} (h : doc.WellFormed) (path : Path) :
    (below path doc).Pairwise Before := by
  induction h generalizing path with
  | null | bool | number => exact .nil
  | string s =>
    rw [below]
    cases ofLeaf? s path with
    | none => exact .nil
    | some b => exact List.pairwise_singleton _ _
  | array hitems ih => exact ordered_belowItems hitems (fun item hitem => ih item hitem) path 0
  | object hkeys hmembers ih =>
    exact ordered_belowMembers hkeys hmembers (fun m hm => ih m hm) path

/-- The bindings of a template stand in the order of the document. -/
theorem ordered_ofTemplate {document : Json} (h : document.WellFormed) :
    (ofTemplate document).Pairwise Before := by
  cases hdoc : document.text? with
  | some s =>
    obtain rfl := Json.text?_eq_some_iff.mp hdoc
    exact .nil
  | none =>
    rw [ofTemplate_eq_below hdoc]
    exact ordered_below h []

/-- No binding of a template leads through the place of another one. -/
theorem apart_ofTemplate {document : Json} (h : document.WellFormed) :
    (ofTemplate document).Pairwise fun a b => a.path.overlaps b.path = false :=
  (ordered_ofTemplate h).imp Path.Before.not_overlaps

theorem not_overlaps_of_ne {document : Json} (h : document.WellFormed) {a b : Binding}
    (ha : a ∈ ofTemplate document) (hb : b ∈ ofTemplate document) (hne : a ≠ b) :
    a.path.overlaps b.path = false := by
  let Apart (a b : Binding) : Prop := a ≠ b → a.path.overlaps b.path = false
  have hforth : (ofTemplate document).Pairwise Apart := by
    refine (apart_ofTemplate h).imp ?_
    intro a b hab _
    exact hab
  have hback : (ofTemplate document).Pairwise (flip Apart) := by
    refine (apart_ofTemplate h).imp ?_
    intro a b hab _
    rwa [Path.overlaps_comm]
  exact hforth.forall_of_forall_of_flip (fun b _ hb => absurd rfl hb) hback ha hb hne

theorem nodup_paths_ofTemplate {document : Json} (h : document.WellFormed) :
    ((ofTemplate document).map path).Nodup := by
  refine List.pairwise_map.mpr ((apart_ofTemplate h).imp ?_)
  intro a b hab heq
  rw [heq, Path.overlaps_self] at hab
  exact Bool.noConfusion hab

/-- The binding of a leaf is made of a pipeline in backticks. -/
theorem ofLeaf?_eq_some_iff {text : String} {path : Path} {b : Binding} :
    ofLeaf? text path = some b
      ↔ b.path = path ∧ text = Pipeline.marked Pipeline.backtick b.expression
          ∧ b.expression ≠ "" ∧ '\n' ∉ b.expression.toList
          ∧ b.stages = Stage.ofCalls (Pipeline.calls b.expression) := by
  rw [ofLeaf?, Option.map_eq_some_iff]
  constructor
  · rintro ⟨expression, hexpression, rfl⟩
    obtain ⟨htext, hne, hline⟩ := Pipeline.wrapped_toList_eq_some_iff.mp hexpression
    exact ⟨rfl, htext, hne, hline, rfl⟩
  · rintro ⟨hpath, htext, hne, hline, hstages⟩
    obtain ⟨path, expression, stages⟩ := b
    obtain rfl : stages = Stage.ofCalls (Pipeline.calls expression) := hstages
    obtain rfl : path = _ := hpath
    exact ⟨expression, Pipeline.wrapped_toList_eq_some_iff.mpr ⟨htext, hne, hline⟩, rfl⟩

end Binding

/-! ### What compiling finds -/

/-- A compiled template holds its document and, for each leaf of the document below
the root that is a pipeline in backticks, one binding, in the order of the document. -/
structure Template.Finds (t : Template) (document : Json) : Prop where
  skeleton : t.skeleton = document
  /-- The bindings are the leaves in backticks. -/
  leaves : ∀ path expression, (∃ b ∈ t.bindings, b.path = path ∧ b.expression = expression)
    ↔ path ≠ [] ∧ document.at? path = some (.string (Pipeline.marked Pipeline.backtick expression))
        ∧ expression ≠ "" ∧ '\n' ∉ expression.toList
  /-- No leaf is found twice. -/
  once : (t.bindings.map Binding.path).Nodup
  /-- The list goes through the document depth first. -/
  ordered : t.bindings.Pairwise Binding.Before
  /-- No binding leads through the place of another one. -/
  apart : ∀ a ∈ t.bindings, ∀ b ∈ t.bindings, a ≠ b → a.path.overlaps b.path = false
  /-- The stages of a binding are those that its pipeline writes. -/
  stages : ∀ b ∈ t.bindings, b.stages = Stage.ofCalls (Pipeline.calls b.expression)

/-- Compiling a document finds its pipelines, each once and in order. -/
theorem Engine.compile_finds (e : Engine) (document options : Json) (h : document.WellFormed) :
    (e.compile document options).value.Finds document := by
  have hmem (b : Binding) : b ∈ (e.compile document options).value.bindings
      ↔ b ∈ Binding.ofTemplate document := Iff.rfl
  constructor
  · rfl
  · intro path expression
    simp only [hmem, Binding.mem_ofTemplate_iff h, IsLeaf, Binding.ofLeaf?_eq_some_iff]
    constructor
    · rintro ⟨b, ⟨hne, text, hat, _, rfl, hexpression, hline, _⟩, rfl, rfl⟩
      exact ⟨hne, hat, hexpression, hline⟩
    · rintro ⟨hne, hat, hexpression, hline⟩
      exact ⟨⟨path, expression, Stage.ofCalls (Pipeline.calls expression)⟩,
        ⟨hne, _, hat, trivial, rfl, hexpression, hline, rfl⟩, rfl, rfl⟩
  · exact Binding.nodup_paths_ofTemplate h
  · exact Binding.ordered_ofTemplate h
  · intro a ha b hb hne
    exact Binding.not_overlaps_of_ne h ha hb hne
  · intro b hb
    obtain ⟨_, text, _, hleaf⟩ := (Binding.mem_ofTemplate_iff h).mp hb
    exact (Binding.ofLeaf?_eq_some_iff.mp hleaf).2.2.2.2

/-- A document with a pipeline in a list, and one in an object that has backticks of
its own. -/
def scatteredDocument : Json :=
  .object [("list", .array [.string "plain", .string "\x60x\x60"]),
    ("member", .object [("inner", .string "\x60\x60y\x60\x60")])]

theorem wellFormed_scatteredDocument : scatteredDocument.WellFormed := by
  refine .object (List.pairwise_pair.mpr (by decide)) ?_
  intro m hm
  simp only [List.mem_cons, List.not_mem_nil, or_false] at hm
  rcases hm with rfl | rfl
  · refine .array ?_
    intro item hitem
    simp only [List.mem_cons, List.not_mem_nil, or_false] at hitem
    rcases hitem with rfl | rfl <;> exact .string _
  · exact Json.wellFormed_object_texts (List.pairwise_singleton _ _) (by decide)

/-- Only the outer backticks are marks. -/
theorem Engine.compile_scatteredDocument : scatteredDocument.WellFormed
    ∧ (∃ b ∈ (Engine.initial.compile scatteredDocument .null).value.bindings,
        b.path = [.name "list", .index 1] ∧ b.expression = "x")
    ∧ ∃ b ∈ (Engine.initial.compile scatteredDocument .null).value.bindings,
        b.path = [.name "member", .name "inner"] ∧ b.expression = "\x60y\x60" := by
  have hwf := wellFormed_scatteredDocument
  have hfinds := Engine.compile_finds Engine.initial scatteredDocument .null hwf
  refine ⟨hwf, (hfinds.leaves _ _).mpr ?_, (hfinds.leaves _ _).mpr ?_⟩
  · exact ⟨by decide, by rfl, by decide, by decide⟩
  · exact ⟨by decide, by rfl, by decide, by decide⟩

/-! ### Reading results back -/

/-- What lies beside all paths that are written is read as before. -/
theorem at?_writeAll_of_not_overlaps {doc result : Json} {ws : List (Path × Json)}
    (h : writeAll doc ws = .ok result) {path : Path}
    (hapart : ∀ w ∈ ws, Path.overlaps w.1 path = false) : result.at? path = doc.at? path := by
  induction ws generalizing doc with
  | nil =>
    obtain rfl := Except.ok.inj h
    rfl
  | cons w ws ih =>
    rw [writeAll] at h
    split at h
    next next hnext =>
      rw [ih h fun u hu => hapart u (List.mem_cons_of_mem _ hu)]
      exact Json.at?_write_of_not_overlaps hnext (hapart w (by simp))
    next => simp at h

/-- Of values written at paths that do not overlap each is read at its path. -/
theorem at?_writeAll {doc result : Json} {ws : List (Path × Json)}
    (h : writeAll doc ws = .ok result)
    (hapart : ws.Pairwise fun w u => Path.overlaps w.1 u.1 = false) {w : Path × Json}
    (hw : w ∈ ws) : result.at? w.1 = some w.2 := by
  induction ws generalizing doc with
  | nil => simp at hw
  | cons first ws ih =>
    obtain ⟨hfirst, hrest⟩ := List.pairwise_cons.mp hapart
    rw [writeAll] at h
    split at h
    next next hnext =>
      rcases List.mem_cons.mp hw with rfl | hw
      · -- No later write disturbs what the first one has put there.
        rw [at?_writeAll_of_not_overlaps h, Json.at?_write hnext]
        intro u hu
        rw [Path.overlaps_comm]
        exact hfirst u hu
      · exact ih h hrest hw
    next => simp at h

theorem Json.at?_substitute (value : Binding → Json) {document : Json} (h : document.WellFormed)
    {b : Binding} (hb : b ∈ Binding.ofTemplate document) :
    (document.substitute value).at? b.path = some (value b) := by
  have hmem : (b.path, value b) ∈ (Binding.ofTemplate document).map fun b => (b.path, value b) :=
    List.mem_map_of_mem hb
  refine at?_writeAll (writeAll_ofTemplate value h) ?_ hmem
  exact List.pairwise_map.mpr (Binding.apart_ofTemplate h)

/-- In a rendered document what the chain of a leaf gives is read at its path. -/
theorem Template.at?_of_substitutes {t : Template} {data document doc : Json}
    (h : document.WellFormed) (hdoc : t.Substitutes data document (.ok doc)) {b : Binding}
    (hb : b ∈ Binding.ofTemplate document) :
    ∃ value, t.chain data b = .ok value ∧ doc.at? b.path = some value := by
  obtain ⟨value, hvalue, rfl⟩ := (hdoc.ok_iff doc).mp rfl
  exact ⟨value b, hvalue b ((Binding.mem_ofTemplate_iff h).mp hb), Json.at?_substitute value h hb⟩

end DocTemplate
