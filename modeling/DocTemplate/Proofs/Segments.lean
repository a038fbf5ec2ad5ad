/-
The display of a path, read as a data path.

A path is displayed as the texts of its keys with points between them.  Read as a data path
this text is cut at the points again, and its segments are the keys that were displayed, as
long as no key holds a point or an opening bracket or has blanks at its ends.  A segment says
no longer whether it was an index or a name; the container that it is followed in decides, by
reading digits in an array and looking for a name in an object.

* `Text.Word.read?_toString` — a word is read from its digits;
* `DataPath.segments_parse_display` — the segments of a displayed path are its keys;
* `DataPath.follow_display` — they lead where the path leads;
* `DataPath.lookup_display` — what is written at a path is looked up at its display.
-/
import DocTemplate.Proofs.Writing
import Mathlib.Data.List.DropRight
import Mathlib.Data.List.TakeWhile
import Mathlib.Order.Basic

namespace DocTemplate

open DocTemplate.Text

/-! ### Blanks at the ends of a text -/

namespace Text

theorem trimStart_eq_self_iff {cs : List Char} :
    trimStart cs = cs ↔ ∀ c, cs.head? = some c → isBlank c = false := by
  cases cs with
  | nil => simp [trimStart]
  | cons c cs => simp [trimStart, List.dropWhile_eq_self_iff]

theorem trimEnd_eq_self_iff {cs : List Char} :
    trimEnd cs = cs ↔ ∀ c, cs.getLast? = some c → isBlank c = false := by
  have h := @trimStart_eq_self_iff cs.reverse
  rw [List.head?_reverse] at h
  rw [← h, trimEnd, trimStart, List.reverse_eq_iff]

/-- Trimming leaves a text as it is when there is no blank at either end. -/
theorem trimChars_eq_self_iff {cs : List Char} :
    trimChars cs = cs ↔ (∀ c, cs.head? = some c → isBlank c = false)
      ∧ ∀ c, cs.getLast? = some c → isBlank c = false := by
  rw [← trimStart_eq_self_iff, ← trimEnd_eq_self_iff]
  constructor
  · intro h
    have hstart : trimStart cs = cs := by
      refine (List.dropWhile_sublist isBlank).eq_of_length_le ?_
      have hend : (trimEnd (trimStart cs)).length ≤ (trimStart cs).length := by
        rw [trimEnd, List.length_reverse]
        exact (List.dropWhile_sublist isBlank).length_le.trans (by simp)
      rw [show trimEnd (trimStart cs) = cs from h] at hend
      exact hend
    refine ⟨hstart, ?_⟩
    rwa [trimChars, hstart] at h
  · rintro ⟨hstart, hend⟩
    rw [trimChars, hstart, hend]

theorem trimEnd_trimEnd (cs : List Char) : trimEnd (trimEnd cs) = trimEnd cs := by
  simp [trimEnd, List.dropWhile_idempotent]

/-- A text is what is left of it behind trimming, with blanks behind. -/
theorem exists_trimEnd_append (cs : List Char) :
    ∃ blanks, trimEnd cs ++ blanks = cs ∧ ∀ c ∈ blanks, isBlank c = true := by
  refine ⟨(cs.reverse.takeWhile isBlank).reverse, ?_, ?_⟩
  · rw [trimEnd, ← List.reverse_append, List.takeWhile_append_dropWhile, List.reverse_reverse]
  · intro c hc
    exact List.mem_takeWhile_imp (List.mem_reverse.mp hc)

/-- A text between texts without blanks at their ends has none at its ends. -/
theorem trimChars_append_append {front back : List Char} (hfront : front ≠ [])
    (hback : back ≠ []) (htrimfront : trimChars front = front) (htrimback : trimChars back = back)
    (mid : List Char) : trimChars (front ++ mid ++ back) = front ++ mid ++ back := by
  refine trimChars_eq_self_iff.mpr ⟨?_, ?_⟩
  · rw [List.append_assoc, List.head?_append_of_ne_nil _ hfront]
    exact (trimChars_eq_self_iff.mp htrimfront).1
  · rw [List.getLast?_append_of_ne_nil _ hback]
    exact (trimChars_eq_self_iff.mp htrimback).2

theorem trimChars_trimChars (cs : List Char) : trimChars (trimChars cs) = trimChars cs := by
  refine trimChars_eq_self_iff.mpr ⟨?_, ?_⟩
  · intro c hc
    obtain ⟨blanks, hblanks, _⟩ := exists_trimEnd_append (trimStart cs)
    have hhead : (trimStart cs).head? = some c := by
      rw [← hblanks, List.head?_append, show (trimEnd (trimStart cs)).head? = some c from hc,
        Option.some_or]
    exact trimStart_eq_self_iff.mp (List.dropWhile_idempotent _ _) c hhead
  · exact trimEnd_eq_self_iff.mp (trimEnd_trimEnd _)

/-! ### Parts with a separator between them -/

variable {sep : Char} {parts : List (List Char)}

theorem joined_eq_intercalate (sep : Char) (parts : List (List Char)) :
    joined sep parts = [sep].intercalate parts := by
  induction parts with
  | nil => rfl
  | cons part parts ih =>
    cases parts with
    | nil => simp [joined]
    | cons other parts => simp [joined, ih]

/-- Cutting at the separator gives the parts back that hold none. -/
theorem pieces_joined (hne : parts ≠ []) (h : ∀ part ∈ parts, sep ∉ part) :
    pieces sep (joined sep parts) = parts := by
  induction parts with
  | nil => exact absurd rfl hne
  | cons part parts ih =>
    have hpart := pieces_of_not_mem (h part (by simp))
    cases parts with
    | nil => exact hpart
    | cons other parts =>
      rw [joined, pieces_append_cons, hpart,
        ih (List.cons_ne_nil _ _) fun p hp => h p (List.mem_cons_of_mem _ hp)]
      rfl

theorem head?_joined {part : List Char} (h : part ≠ []) (parts : List (List Char)) :
    (joined sep (part :: parts)).head? = part.head? := by
  cases parts with
  | nil => rfl
  | cons other parts => rw [joined, List.head?_append_of_ne_nil _ h]

theorem getLast?_joined (hne : parts ≠ []) (h : ∀ part ∈ parts, part ≠ []) :
    (joined sep parts).getLast? = (parts.getLast hne).getLast? := by
  induction parts with
  | nil => exact absurd rfl hne
  | cons part parts ih =>
    cases parts with
    | nil => rfl
    | cons other parts =>
      have hother : joined sep (other :: parts) ≠ [] := by
        intro hnil
        have hhead : (joined sep (other :: parts)).head? = other.head? :=
          head?_joined (h other (by simp)) parts
        rw [hnil] at hhead
        exact h other (by simp) (List.head?_eq_none_iff.mp hhead.symm)
      rw [joined, List.getLast?_append_of_ne_nil _ (List.cons_ne_nil _ _),
        List.getLast?_cons_of_ne_nil hother,
        ih (List.cons_ne_nil _ _) fun p hp => h p (List.mem_cons_of_mem _ hp)]
      rfl

theorem not_mem_joined {c : Char} (hc : c ≠ sep) (h : ∀ part ∈ parts, c ∉ part) :
    c ∉ joined sep parts := by
  induction parts with
  | nil => simp [joined]
  | cons part parts ih =>
    cases parts with
    | nil => exact h part (by simp)
    | cons other parts =>
      have hrest := ih fun p hp => h p (List.mem_cons_of_mem _ hp)
      simp [joined, h part (by simp), hc, hrest]

/-- Parts without blanks at their ends make up a text without blanks at its ends. -/
theorem trimChars_joined (hne : parts ≠ [])
    (h : ∀ part ∈ parts, part ≠ [] ∧ trimChars part = part) :
    trimChars (joined sep parts) = joined sep parts := by
  obtain ⟨first, others, rfl⟩ := List.exists_cons_of_ne_nil hne
  have hfirst := trimChars_eq_self_iff.mp (h first (by simp)).2
  have hlast := trimChars_eq_self_iff.mp (h _ (List.getLast_mem hne)).2
  refine trimChars_eq_self_iff.mpr ⟨?_, ?_⟩
  · rw [head?_joined (h first (by simp)).1]
    exact hfirst.1
  · rw [getLast?_joined hne fun part hpart => (h part hpart).1]
    exact hlast.2

/-! ### Words in digits -/

theorem toNat_of_isDigit {c : Char} (h : c.isDigit) : 48 ≤ c.toNat ∧ c.toNat ≤ 57 :=
  Char.isDigit_iff_toNat.mp h

theorem isBlank_of_isDigit {c : Char} (h : c.isDigit) : isBlank c = false := by
  have hrange := toNat_of_isDigit h
  simp only [isBlank, Bool.or_eq_false_iff, Bool.and_eq_false_iff, decide_eq_false_iff_not,
    beq_eq_false_iff_ne]
  omega

theorem mapM_digitIn?_ten {cs : List Char} (h : ∀ c ∈ cs, c.isDigit) :
    cs.mapM (digitIn? 10) = some (cs.map fun c => c.toNat - '0'.toNat) := by
  induction cs with
  | nil => rfl
  | cons c cs ih =>
    have hdigit : digitIn? 10 c = some (c.toNat - '0'.toNat) := by
      have hlt : c.toNat - 48 < 10 := by
        have := toNat_of_isDigit (h c (by simp))
        omega
      simpa [digitIn?, h c (by simp)] using hlt
    rw [List.mapM_cons, hdigit, ih fun d hd => h d (List.mem_cons_of_mem _ hd)]
    rfl

theorem isDigit_of_mem_toDigits {c : Char} {n : Nat} (h : c ∈ Nat.toDigits 10 n) : c.isDigit :=
  Nat.isDigit_of_mem_toDigits (by decide) (by decide) h

/-- A number is read from its digits. -/
theorem natural?_toDigits (n : Nat) : natural? 10 (Nat.toDigits 10 n) = some n := by
  have hne : (Nat.toDigits 10 n).isEmpty = false :=
    List.isEmpty_eq_false_iff.mpr Nat.toDigits_ne_nil
  have hvalue : naturalOfDigits 10 ((Nat.toDigits 10 n).map fun c => c.toNat - '0'.toNat) = n := by
    conv => rhs; rw [← @Nat.ofDigitChars_ten_toDigits n, Nat.ofDigitChars_eq_foldl]
    rw [naturalOfDigits, List.foldl_map]
    simp only [Nat.mul_comm]
  rw [natural?, hne, mapM_digitIn?_ten fun c hc => isDigit_of_mem_toDigits hc]
  exact congrArg some hvalue

/-- A word is read from its digits. -/
theorem Word.read?_toString {n : Nat} (h : n < bound) : read? (toString n) = some n := by
  have hplus : dropPlus (Nat.toDigits 10 n) = Nat.toDigits 10 n := by
    unfold dropPlus
    split
    next cs hcs =>
      have hmem : '+' ∈ Nat.toDigits 10 n := by simp [hcs]
      exact absurd (isDigit_of_mem_toDigits hmem) (by decide)
    next => rfl
  rw [read?, Nat.toString_eq_repr, Nat.toList_repr, hplus, natural?_toDigits]
  simp [h]

/-- A text that can stand between two points of a data path and is one segment there. -/
structure Unbroken (cs : List Char) : Prop where
  nonempty : cs ≠ []
  /-- There are no blanks at its ends. -/
  trimmed : trimChars cs = cs
  point : '.' ∉ cs
  bracket : '[' ∉ cs

theorem unbroken_toDigits (n : Nat) : Unbroken (Nat.toDigits 10 n) := by
  refine ⟨Nat.toDigits_ne_nil, trimChars_eq_self_iff.mpr ⟨?_, ?_⟩, ?_, ?_⟩
  · intro c hc
    exact isBlank_of_isDigit (isDigit_of_mem_toDigits (List.mem_of_head? hc))
  · intro c hc
    exact isBlank_of_isDigit (isDigit_of_mem_toDigits (List.mem_of_getLast? hc))
  · intro hmem
    exact absurd (isDigit_of_mem_toDigits hmem) (by decide)
  · intro hmem
    exact absurd (isDigit_of_mem_toDigits hmem) (by decide)

end Text

/-! ### The keys of a path -/

namespace Path

/-- A key can be displayed as a segment: an index is a word, and a name is unbroken. -/
def Key.IsSegment : Key → Prop
  | .index i => i < Word.bound
  | .name text => Unbroken text.toList

theorem Key.IsSegment.unbroken {key : Key} (h : key.IsSegment) : Unbroken key.display.toList := by
  cases key with
  | index i =>
    rw [Key.display, Nat.toString_eq_repr, Nat.toList_repr]
    exact unbroken_toDigits i
  | name text => exact h

theorem toList_display (path : Path) :
    path.display.toList = joined '.' (path.map fun key => key.display.toList) := by
  rw [display, String.toList_intercalate, joined_eq_intercalate, List.map_map]
  rfl

end Path

namespace DataPath

/-! ### The segments of a displayed path -/

theorem withoutBrackets_append_of_not_mem {cs : List Char} (h : '[' ∉ cs)
    (more : List Char) :
    withoutBrackets (cs ++ more) = cs ++ withoutBrackets more := by
  induction cs with
  | nil => rfl
  | cons c cs ih =>
    obtain ⟨hc, hcs⟩ : '[' ≠ c ∧ '[' ∉ cs := by simpa using h
    rw [List.cons_append, withoutBrackets, if_neg (Ne.symm hc), ih hcs, List.cons_append]

theorem withoutBrackets_of_not_mem {cs : List Char} (h : '[' ∉ cs) : withoutBrackets cs = cs := by
  simpa [withoutBrackets] using withoutBrackets_append_of_not_mem h []

/-- Parts that are unbroken are the segments of the text that they make up. -/
theorem segmentsOf_joined {parts : List (List Char)} (hne : parts ≠ [])
    (h : ∀ part ∈ parts, Unbroken part) : segmentsOf (joined '.' parts) = parts := by
  have htrimmed : parts.map trimChars = parts.map id :=
    List.map_congr_left fun part hpart => (h part hpart).trimmed
  rw [segmentsOf, pieces_joined hne fun part hpart => (h part hpart).point, htrimmed, List.map_id,
    List.filter_eq_self]
  intro part hpart
  simp [(h part hpart).nonempty]

/-- The segments of a displayed path are its keys. -/
theorem segments_parse_display {path : Path} (hne : path ≠ [])
    (h : ∀ key ∈ path, key.IsSegment) :
    (parse path.display).segments = path.map Path.Key.display := by
  have hparts : path.map (fun key => key.display.toList) ≠ [] := by simpa using hne
  have hunbroken : ∀ part ∈ path.map (fun key => key.display.toList), Unbroken part := by
    intro part hpart
    obtain ⟨key, hkey, rfl⟩ := List.mem_map.mp hpart
    exact (h key hkey).unbroken
  have htrimmed : trimChars (joined '.' (path.map fun key => key.display.toList))
      = joined '.' (path.map fun key => key.display.toList) :=
    trimChars_joined hparts fun part hpart =>
      ⟨(hunbroken part hpart).nonempty, (hunbroken part hpart).trimmed⟩
  have hbracket : '[' ∉ joined '.' (path.map fun key => key.display.toList) :=
    not_mem_joined (by decide) fun part hpart => (hunbroken part hpart).bracket
  rw [parse, Path.toList_display, htrimmed, withoutBrackets_of_not_mem hbracket,
    segmentsOf_joined hparts hunbroken, List.map_map]
  refine List.map_congr_left ?_
  intro key _
  exact String.ofList_toList

/-! ### Following the segments -/

/-- The container decides whether a segment is an index or a name. -/
theorem step?_display {doc part : Json} {key : Path.Key} (h : key.IsSegment)
    (hpart : doc.child? key = some part) : step? doc key.display = some part := by
  cases doc with
  | null | bool | number | string => simp [Json.child?] at hpart
  | object members =>
    cases key with
    | index i => simp [Json.child?] at hpart
    | name text => exact hpart
  | array items =>
    cases key with
    | name text => simp [Json.child?] at hpart
    | index i =>
      have hread : Word.read? (Path.Key.index i).display = some i := Word.read?_toString h
      rw [step?, hread]
      exact hpart

/-- The displayed keys of a path lead where the path leads. -/
theorem follow_display {doc value : Json} {path : Path} (h : ∀ key ∈ path, key.IsSegment)
    (hat : doc.at? path = some value) : follow doc (path.map Path.Key.display) = some value := by
  induction path generalizing doc with
  | nil => exact hat
  | cons key path ih =>
    obtain ⟨part, hpart, hrest⟩ := Option.bind_eq_some_iff.mp hat
    rw [List.map_cons, follow, step?_display (h key (by simp)) hpart]
    exact ih (fun k hk => h k (List.mem_cons_of_mem _ hk)) hrest

theorem lookup_parse_display {doc value : Json} {path : Path} (hne : path ≠ [])
    (h : ∀ key ∈ path, key.IsSegment) (hat : doc.at? path = some value) :
    (parse path.display).lookup doc = some value := by
  have hsegments := segments_parse_display hne h
  have hnil : (parse path.display).segments.isEmpty = false := by
    rw [hsegments]
    simpa using hne
  rw [lookup, hnil, hsegments]
  exact follow_display h hat

/-- What is written at a path below the root is looked up at the display of the path, and so
is whatever stands in a document at such a path. -/
theorem lookup_display (path : Path) (hne : path ≠ []) (h : ∀ key ∈ path, key.IsSegment) :
    (∀ doc value result : Json, doc.write path value = .ok result →
        (parse path.display).lookup result = some value)
      ∧ ∀ doc value : Json, doc.at? path = some value →
          (parse path.display).lookup doc = some value := by
  constructor
  · intro doc value result hwrite
    exact lookup_parse_display hne h (Json.at?_write hwrite)
  · intro doc value hat
    exact lookup_parse_display hne h hat

/-- A name that is written like an index, and an index behind it. -/
def numberedPath : Path := [.name "7", .index 1]

theorem isSegment_numberedPath : ∀ key ∈ numberedPath, key.IsSegment := by
  intro key hkey
  simp only [numberedPath, List.mem_cons, List.not_mem_nil, or_false] at hkey
  rcases hkey with rfl | rfl
  · exact ⟨by decide, by decide, by decide, by decide⟩
  · show 1 < Word.bound
    decide

/-- The name stays a name and the index an index, also of an item that was appended. -/
theorem lookup_display_numberedPath : numberedPath ≠ []
    ∧ (∀ key ∈ numberedPath, key.IsSegment)
    ∧ (Json.object [("7", .array [.null])]).write numberedPath (.bool true)
      = .ok (.object [("7", .array [.null, .bool true])])
    ∧ (parse (Path.display numberedPath)).lookup (.object [("7", .array [.null, .bool true])])
      = some (.bool true)
    ∧ (parse (Path.display numberedPath)).lookup (.object [("7", .array [.null, .null])])
      = some .null := by
  have hlookup := lookup_display numberedPath (by decide) isSegment_numberedPath
  have hwrite : (Json.object [("7", .array [.null])]).write numberedPath (.bool true)
      = .ok (.object [("7", .array [.null, .bool true])]) := by rfl
  exact ⟨by decide, isSegment_numberedPath, hwrite, hlookup.1 _ _ _ hwrite, hlookup.2 _ _ (by rfl)⟩

end DataPath

end DocTemplate
