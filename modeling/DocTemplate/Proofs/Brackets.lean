/-
Brackets in data paths.

A data path is read by replacing what stands in brackets with a point and the key inside.  The
search behind this prefers a key in double quotes, then one in single quotes, then a bare one that
is as short as it can be; blanks just inside the brackets belong to none of them.

* `DataPath.withoutBrackets_eq_replace` — what is put in the place of the brackets that the
  search finds.
-/
import DocTemplate.Pipeline.Call
import DocTemplate.Proofs.Pattern
import DocTemplate.Proofs.Segments

namespace DocTemplate.DataPath

open DocTemplate.Text

variable {c : Char} {cs key rest : List Char}

/-! ### The search for brackets -/

/-- Blanks and a closing bracket. -/
def closing : Pattern := .seq (.most isBlank) (.one (· == ']'))

/-- A bare key: as short as what is behind it allows. -/
def bareKey : Pattern := .keep (.least (· != ']'))

/-- A key in double quotes, or else in single quotes, or else bare. -/
def bracketed : Pattern := .alt (.quotation '"') (.alt (.quotation '\'') bareKey)

/-- The search for brackets with a key inside. -/
def bracket : Search :=
  ⟨.seq (.one (· == '[')) (.seq (.most isBlank) (.seq bracketed closing)), rfl⟩

theorem ways_closing (cs : List Char) :
    closing.ways cs = ((pastBracket? cs).map (⟨[], ·⟩)).toList := by
  have houtside : (Pattern.one (· == ']')).BeginsOutside isBlank := by
    refine Pattern.beginsOutside_one ?_
    intro c hc
    by_contra hbracket
    obtain rfl : c = ']' := by simpa using hbracket
    exact absurd hc (by decide)
  rw [closing, Pattern.ways_most_seq houtside, pastBracket?, trimStart]
  cases cs.dropWhile isBlank with
  | nil => rfl
  | cons c cs =>
    by_cases hc : c = ']'
    · simp [Pattern.ways, hc]
    · simp [Pattern.ways, hc]

/-! ### Reading brackets -/

theorem not_mem_of_bracketKey?_eq_none (h : bracketKey? cs = none) : ']' ∉ cs := by
  have hbare : bareKey? (trimStart cs) = none := by
    simp only [bracketKey?, Option.or_eq_none_iff] at h
    exact h.2.2
  have htrimmed : ']' ∉ trimStart cs := upTo_eq_none_iff.mp (Option.map_eq_none_iff.mp hbare)
  rw [← List.takeWhile_append_dropWhile (p := isBlank) (l := cs), List.mem_append]
  rintro (hmem | hmem)
  · exact absurd (List.mem_takeWhile_imp hmem) (by decide)
  · exact htrimmed hmem

/-- A bracket closes behind blanks. -/
theorem pastBracket?_eq_some_iff :
    pastBracket? cs = some rest
      ↔ ∃ blanks, cs = blanks ++ ']' :: rest ∧ ∀ c ∈ blanks, isBlank c = true := by
  constructor
  · intro h
    unfold pastBracket? at h
    split at h
    next rest' htrim =>
      obtain rfl : rest' = rest := by simpa using h
      refine ⟨cs.takeWhile isBlank, ?_, fun c hc => List.mem_takeWhile_imp hc⟩
      rw [← htrim, trimStart, List.takeWhile_append_dropWhile]
    next => simp at h
  · rintro ⟨blanks, rfl, hblanks⟩
    have htrim : trimStart (blanks ++ ']' :: rest) = ']' :: rest := by
      rw [trimStart, List.dropWhile_append_of_pos hblanks]
      rfl
    rw [pastBracket?, htrim]
    rfl

theorem ways_quotation_closing (quote : Char) (cs : List Char) :
    (Pattern.seq (.quotation quote) closing).ways cs
      = ((quotedKey? quote cs).map fun (key, rest) => ⟨[key], rest⟩).toList := by
  cases cs with
  | nil => rfl
  | cons c cs =>
    rw [Pattern.ways, Pattern.ways_quotation, quotedKey?]
    by_cases hc : c = quote
    · rw [if_pos hc, if_pos hc]
      cases upTo quote cs with
      | none => rfl
      | some found =>
        simp [ways_closing]
        cases pastBracket? found.2 <;> rfl
    · simp [hc]

/-- Where no bracket closes, nothing is found. -/
theorem ways_seq_closing_eq_nil (a : Pattern) (h : ']' ∉ cs) :
    (Pattern.seq a closing).ways cs = [] := by
  refine List.eq_nil_iff_forall_not_mem.mpr ?_
  intro m hm
  obtain ⟨m', hm', n, hn, _⟩ : ∃ m' ∈ a.ways cs, ∃ n ∈ closing.ways m'.rest,
      (⟨m'.kept ++ n.kept, n.rest⟩ : Match) = m := by simpa [Pattern.ways] using hm
  obtain ⟨rest, hpast, _⟩ : ∃ rest, pastBracket? m'.rest = some rest
      ∧ (⟨[], rest⟩ : Match) = n := by
    simpa [ways_closing] using hn
  obtain ⟨blanks, hblanks, _⟩ := pastBracket?_eq_some_iff.mp hpast
  exact h ((Pattern.suffix_of_mem_ways hm').subset (by simp [hblanks]))

/-- In front of a closing bracket a text that does not end with a blank is no row of blanks. -/
theorem pastBracket?_append_eq_none {part : List Char} (hne : part ≠ []) (hbracket : ']' ∉ part)
    (hlast : trimEnd part = part) : pastBracket? (part ++ rest) = none := by
  rw [Option.eq_none_iff_forall_ne_some]
  intro after hpast
  obtain ⟨blanks, heq, hblanks⟩ := pastBracket?_eq_some_iff.mp hpast
  have hblank : ∀ c ∈ part, isBlank c = true := by
    rcases List.append_eq_append_iff.mp heq with ⟨more, hmore, _⟩ | ⟨more, hmore, hclosing⟩
    · intro c hc
      exact hblanks c (by simp [hmore, hc])
    · cases more with
      | nil => simpa [hmore] using hblanks
      | cons c more =>
        obtain ⟨rfl, _⟩ : ']' = c ∧ after = more ++ rest := by simpa using hclosing
        simp [hmore] at hbracket
  have hend := trimEnd_eq_self_iff.mp hlast (part.getLast hne) (List.getLast?_eq_some_getLast hne)
  simp [hblank _ (List.getLast_mem hne)] at hend

/-- A bare key is found up to the blanks before the next closing bracket. -/
theorem head?_ways_bareKey (cs : List Char) :
    ((Pattern.seq bareKey closing).ways cs).head?
      = (bareKey? cs).map fun (key, rest) => ⟨[key], rest⟩ := by
  by_cases hbracket : ']' ∈ cs
  · obtain ⟨body, rest, rfl, hbody⟩ := List.eq_append_cons_of_mem hbracket
    have hkey : bareKey? (body ++ ']' :: rest) = some (trimEnd body, rest) := by
      rw [bareKey?, upTo_eq_some_iff.mpr ⟨rfl, hbody⟩]
      rfl
    obtain ⟨blanks, hblanks, hblank⟩ := exists_trimEnd_append body
    have hclosing : pastBracket? (blanks ++ ']' :: rest) = some rest :=
      pastBracket?_eq_some_iff.mpr ⟨blanks, rfl, hblank⟩
    have hin : ∀ c ∈ trimEnd body, (c != ']') = true := by
      intro c hc
      have hmem : c ∈ body := hblanks ▸ List.mem_append_left blanks hc
      simpa using fun h : c = ']' => hbody (h ▸ hmem)
    have hnone : ∀ part, part ≠ [] → part <:+ trimEnd body →
        closing.ways (part ++ (blanks ++ ']' :: rest)) = [] := by
      intro part hpart hsuffix
      have hbracket : ']' ∉ part := by
        intro hmem
        simpa using hin _ (hsuffix.subset hmem)
      have hlast : trimEnd part = part := by
        obtain ⟨front, hfront⟩ := hsuffix
        have hend := trimEnd_eq_self_iff.mp (trimEnd_trimEnd body)
        rw [← hfront, List.getLast?_append_of_ne_nil front hpart] at hend
        exact trimEnd_eq_self_iff.mpr hend
      rw [ways_closing, pastBracket?_append_eq_none hpart hbracket hlast]
      rfl
    have hclosed : (closing.ways (blanks ++ ']' :: rest)).head? = some ⟨[], rest⟩ := by
      rw [ways_closing, hclosing]
      rfl
    have hhead := Pattern.head?_ways_keep_least_seq hin hnone hclosed
    rw [← List.append_assoc, hblanks] at hhead
    rw [hkey, bareKey, hhead]
    rfl
  · rw [ways_seq_closing_eq_nil bareKey hbracket, bareKey?, upTo_eq_none_iff.mpr hbracket]
    rfl

/-- The key just inside an opening bracket, blanks left out, and what is behind the bracket. -/
theorem head?_ways_bracketed (cs : List Char) :
    ((Pattern.seq bracketed closing).ways cs).head?
      = ((quotedKey? '"' cs).or ((quotedKey? '\'' cs).or (bareKey? cs))).map
        fun (key, rest) => ⟨[key], rest⟩ := by
  rw [bracketed, Pattern.ways_alt_seq, Pattern.ways_alt_seq, List.head?_append, List.head?_append,
    ways_quotation_closing, ways_quotation_closing, head?_ways_bareKey]
  cases quotedKey? '"' cs <;> cases quotedKey? '\'' cs <;> simp

/-- The search finds a bracket where a key is read. -/
theorem head?_ways_bracket (cs : List Char) :
    (bracket.pattern.ways ('[' :: cs)).head?
      = (bracketKey? cs).map fun (key, rest) => ⟨[key], rest⟩ := by
  have hways : bracket.pattern.ways ('[' :: cs)
      = (Pattern.seq (.most isBlank) (.seq bracketed closing)).ways cs :=
    Pattern.ways_one_seq _ _ _ _
  have hhead : ((Pattern.seq bracketed closing).ways (trimStart cs)).head?
      = (bracketKey? cs).map fun (key, rest) => ⟨[key], rest⟩ :=
    head?_ways_bracketed (trimStart cs)
  rw [hways, ← hhead]
  cases hkey : ((Pattern.seq bracketed closing).ways (trimStart cs)).head? with
  | some m => exact Pattern.head?_ways_most_seq hkey
  | none =>
    -- No bracket closes, and so it does not help to leave blanks to the key.
    rw [hhead, Option.map_eq_none_iff] at hkey
    have hclosed := not_mem_of_bracketKey?_eq_none hkey
    refine List.head?_eq_none_iff.mpr (List.flatMap_eq_nil_iff.mpr ?_)
    intro m hm
    have hbehind : ']' ∉ m.rest := fun h => hclosed ((Pattern.suffix_of_mem_ways hm).subset h)
    rw [ways_seq_closing_eq_nil bracketed hbehind]
    rfl

theorem ways_bracket_eq_nil (hc : c ≠ '[') (cs : List Char) :
    bracket.pattern.ways (c :: cs) = [] := by
  have hways : bracket.pattern.ways (c :: cs)
      = if c == '[' then (Pattern.seq (.most isBlank) (.seq bracketed closing)).ways cs else [] :=
    Pattern.ways_one_seq _ _ _ _
  rw [hways, if_neg (by simpa using hc)]

/-- Brackets are replaced where the search finds them, by a point and the key inside. -/
theorem withoutBrackets_eq_replace (cs : List Char) :
    withoutBrackets cs = bracket.replace (fun m => '.' :: m.kept.head?.getD []) cs := by
  induction cs using withoutBrackets.induct with
  | case1 => rw [withoutBrackets, Search.replace_nil]
  | case2 cs key rest h ih =>
    have hhead := head?_ways_bracket cs
    rw [h] at hhead
    rw [Search.replace_of_head?_ways _ hhead, ← ih, withoutBrackets, if_pos rfl]
    split
    next key' rest' h' =>
      obtain ⟨rfl, rfl⟩ : key = key' ∧ rest = rest' := by simpa using h.symm.trans h'
      rfl
    next h' => simp [h] at h'
  | case3 cs h ih =>
    have hhead := head?_ways_bracket cs
    rw [h] at hhead
    rw [Search.replace_of_ways_eq_nil _ (List.head?_eq_none_iff.mp hhead), ← ih, withoutBrackets,
      if_pos rfl]
    split
    next h' => simp [h] at h'
    next => rfl
  | case4 c cs hc ih =>
    rw [Search.replace_of_ways_eq_nil _ (ways_bracket_eq_nil hc cs), ← ih, withoutBrackets,
      if_neg hc]

end DocTemplate.DataPath
