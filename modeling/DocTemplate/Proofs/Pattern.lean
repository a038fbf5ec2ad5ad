/-
Patterns and what they match.

A pattern says what a stretch of text may look like.  At one place of a text it may match in
several ways: an alternative is preferred to the next one, and a run of characters is preferred
long or short.  A search takes the first place of a text where its pattern matches at all, takes
the preferred way there, and goes on behind it.

* `Pattern.ways` — the ways to match at the front of a text, the preferred one first;
* `Search.cut` — a text cut at the matches of a search, with what lies between them
  (`Search.between`), what they keep (`Search.kept`) and the text with something else in their
  place (`Search.replace`);
* `Pattern.ways_most_seq`, `Pattern.ways_keep_most_seq` — a run with something behind it that no
  character of the run can begin is matched in one way only;
* `Pattern.ways_quotation` — a stretch in quotes is matched up to the next quote.

Design notes: a match is told by the text behind it, which is a suffix of the text it is found
in; what a group keeps is the text in front of that suffix.  The patterns of a search match at
least one character, so that a search never stands still.
-/
import DocTemplate.Text.Scan

namespace DocTemplate.Text

/-- A pattern for stretches of text. -/
inductive Pattern where
  /-- One character of a class. -/
  | one (p : Char → Bool)
  /-- A run of characters of a class, preferred long. -/
  | most (p : Char → Bool)
  /-- A run of characters of a class, preferred short. -/
  | least (p : Char → Bool)
  /-- One pattern and behind it another. -/
  | seq (first second : Pattern)
  /-- One pattern, or else another. -/
  | alt (first second : Pattern)
  /-- A pattern whose text is kept. -/
  | keep (inner : Pattern)

/-- A way to match at the front of a text: the stretches that it keeps, and what is behind it. -/
structure Match where
  kept : List (List Char)
  rest : List Char
  deriving DecidableEq, Repr

/-- What stands in a text in front of one of its suffixes. -/
def inFront (cs rest : List Char) : List Char := cs.take (cs.length - rest.length)

@[simp] theorem inFront_append (front rest : List Char) : inFront (front ++ rest) rest = front := by
  simp [inFront]

/-- What can be left of a text behind a run of characters of a class at its front, the shortest
run first. -/
def behindRuns (p : Char → Bool) : List Char → List (List Char)
  | [] => [[]]
  | c :: cs => (c :: cs) :: if p c then behindRuns p cs else []

/-- Behind every run but the longest the class goes on. -/
theorem behindRuns_eq (p : Char → Bool) (cs : List Char) :
    ∃ shorter, behindRuns p cs = shorter ++ [cs.dropWhile p]
      ∧ ∀ rest ∈ shorter, ∃ c more, p c = true ∧ rest = c :: more := by
  induction cs with
  | nil => exact ⟨[], rfl, by simp⟩
  | cons c cs ih =>
    by_cases hc : p c = true
    · obtain ⟨shorter, heq, hshorter⟩ := ih
      refine ⟨(c :: cs) :: shorter, ?_, ?_⟩
      · rw [behindRuns, if_pos hc, heq, List.dropWhile_cons_of_pos hc]
        rfl
      · intro rest hrest
        rcases List.mem_cons.mp hrest with rfl | hrest
        · exact ⟨c, cs, hc, rfl⟩
        · exact hshorter rest hrest
    · refine ⟨[], ?_, by simp⟩
      rw [behindRuns, if_neg hc, List.dropWhile_cons_of_neg hc]
      rfl

/-- Any part of a run can be matched; the runs before it end inside that part. -/
theorem exists_behindRuns_append {p : Char → Bool} {front : List Char}
    (h : ∀ c ∈ front, p c = true) (rest : List Char) :
    ∃ shorter longer, behindRuns p (front ++ rest) = shorter ++ rest :: longer
      ∧ ∀ more ∈ shorter, ∃ part, part ≠ [] ∧ part <:+ front ∧ more = part ++ rest := by
  induction front with
  | nil => cases rest <;> exact ⟨[], _, rfl, by simp⟩
  | cons c front ih =>
    obtain ⟨hc, hfront⟩ := List.forall_mem_cons.mp h
    obtain ⟨shorter, longer, heq, hshorter⟩ := ih hfront
    refine ⟨(c :: (front ++ rest)) :: shorter, longer, ?_, ?_⟩
    · rw [List.cons_append, behindRuns, if_pos hc, heq]
      rfl
    · intro more hmore
      rcases List.mem_cons.mp hmore with rfl | hmore
      · exact ⟨c :: front, by simp, List.suffix_refl _, rfl⟩
      · obtain ⟨part, hpart, hsuffix, hmore⟩ := hshorter more hmore
        exact ⟨part, hpart, hsuffix.trans (List.suffix_cons c front), hmore⟩

theorem suffix_of_mem_behindRuns {p : Char → Bool} {cs rest : List Char}
    (h : rest ∈ behindRuns p cs) : rest <:+ cs := by
  induction cs with
  | nil => simp_all [behindRuns]
  | cons c cs ih =>
    rw [behindRuns, List.mem_cons] at h
    rcases h with rfl | h
    · exact List.suffix_refl _
    · split at h
      · exact (ih h).trans (List.suffix_cons c cs)
      · simp at h

/-- The text before a character is the run of the others at the front. -/
theorem upTo_eq (c : Char) (cs : List Char) :
    upTo c cs = (cs.dropWhile (· != c)).tail?.map fun rest => (cs.takeWhile (· != c), rest) := by
  induction cs with
  | nil => rfl
  | cons d cs ih =>
    by_cases hd : d = c
    · simp [upTo, hd]
    · simp [upTo, hd, ih, Function.comp_def]

namespace Pattern

/-- The ways to match a pattern at the front of a text, the preferred one first. -/
def ways : Pattern → List Char → List Match
  | one _, [] => []
  | one p, c :: cs => if p c then [⟨[], cs⟩] else []
  | most p, cs => (behindRuns p cs).reverse.map (⟨[], ·⟩)
  | least p, cs => (behindRuns p cs).map (⟨[], ·⟩)
  | seq a b, cs =>
    (a.ways cs).flatMap fun m => (b.ways m.rest).map fun n => ⟨m.kept ++ n.kept, n.rest⟩
  | alt a b, cs => a.ways cs ++ b.ways cs
  | keep a, cs => (a.ways cs).map fun m => ⟨inFront cs m.rest :: m.kept, m.rest⟩

/-- Whether a pattern matches at least one character, as its parts show. -/
def consumes : Pattern → Bool
  | one _ => true
  | most _ | least _ => false
  | seq a b => a.consumes || b.consumes
  | alt a b => a.consumes && b.consumes
  | keep a => a.consumes

variable {a b : Pattern} {p q : Char → Bool} {cs : List Char} {m : Match}

attribute [local simp] ways in
/-- What is behind a match is a suffix of the text. -/
theorem suffix_of_mem_ways (h : m ∈ a.ways cs) : m.rest <:+ cs := by
  induction a generalizing cs m with
  | one p =>
    cases cs with
    | nil => simp at h
    | cons c cs =>
      obtain ⟨_, rfl⟩ : p c = true ∧ m = ⟨[], cs⟩ := by simpa using h
      exact List.suffix_cons c cs
  | most p | least p =>
    obtain ⟨rest, hrest, rfl⟩ : ∃ rest ∈ behindRuns p cs, (⟨[], rest⟩ : Match) = m := by
      simpa using h
    exact suffix_of_mem_behindRuns hrest
  | seq a b iha ihb =>
    obtain ⟨m', hm', n, hn, rfl⟩ : ∃ m' ∈ a.ways cs, ∃ n ∈ b.ways m'.rest,
        (⟨m'.kept ++ n.kept, n.rest⟩ : Match) = m := by simpa using h
    exact (ihb hn).trans (iha hm')
  | alt a b iha ihb =>
    rcases List.mem_append.mp h with h | h
    · exact iha h
    · exact ihb h
  | keep a ih =>
    obtain ⟨m', hm', rfl⟩ : ∃ m' ∈ a.ways cs,
        (⟨inFront cs m'.rest :: m'.kept, m'.rest⟩ : Match) = m := by
      simpa using h
    exact ih (m := m') hm'

/-- Where a pattern matches at least one character, less is behind the match. -/
theorem length_of_mem_ways (hconsumes : a.consumes = true) (h : m ∈ a.ways cs) :
    m.rest.length < cs.length := by
  induction a generalizing cs m with
  | one p =>
    cases cs with
    | nil => simp [ways] at h
    | cons c cs =>
      obtain ⟨_, rfl⟩ : p c = true ∧ m = ⟨[], cs⟩ := by simpa [ways] using h
      simp
  | most p | least p => simp [consumes] at hconsumes
  | seq a b iha ihb =>
    obtain ⟨m', hm', n, hn, rfl⟩ : ∃ m' ∈ a.ways cs, ∃ n ∈ b.ways m'.rest,
        (⟨m'.kept ++ n.kept, n.rest⟩ : Match) = m := by simpa [ways] using h
    have hle := (suffix_of_mem_ways hm').length_le
    have hle' := (suffix_of_mem_ways hn).length_le
    rcases Bool.or_eq_true_iff.mp hconsumes with ha | hb
    · exact Nat.lt_of_le_of_lt hle' (iha ha hm')
    · exact Nat.lt_of_lt_of_le (ihb (m := n) hb hn) hle
  | alt a b iha ihb =>
    obtain ⟨ha, hb⟩ := Bool.and_eq_true_iff.mp hconsumes
    rcases List.mem_append.mp h with h | h
    · exact iha ha h
    · exact ihb hb h
  | keep a ih =>
    obtain ⟨m', hm', rfl⟩ : ∃ m' ∈ a.ways cs,
        (⟨inFront cs m'.rest :: m'.kept, m'.rest⟩ : Match) = m := by
      simpa [ways] using h
    exact ih (m := m') hconsumes hm'

theorem ways_alt_seq (a b d : Pattern) (cs : List Char) :
    (seq (alt a b) d).ways cs = (seq a d).ways cs ++ (seq b d).ways cs := by
  simp [ways]

/-! ### Runs -/

theorem ways_one_seq (b : Pattern) (p : Char → Bool) (c : Char) (cs : List Char) :
    (seq (one p) b).ways (c :: cs) = if p c then b.ways cs else [] := by
  by_cases hc : p c = true <;> simp [ways, hc]

/-- A pattern begins outside a class when it matches nothing that begins with a character of
the class. -/
def BeginsOutside (b : Pattern) (p : Char → Bool) : Prop :=
  ∀ c cs, p c = true → b.ways (c :: cs) = []

theorem beginsOutside_one (h : ∀ c, p c = true → q c = false) : (one q).BeginsOutside p := by
  intro c cs hc
  simp [ways, h c hc]

theorem beginsOutside_one_seq (h : ∀ c, p c = true → q c = false) (b : Pattern) :
    (seq (one q) b).BeginsOutside p := by
  intro c cs hc
  simp [ways_one_seq, h c hc]

theorem BeginsOutside.behindRuns_eq (h : b.BeginsOutside p) (cs : List Char) :
    ∃ shorter, behindRuns p cs = shorter ++ [cs.dropWhile p]
      ∧ ∀ rest ∈ shorter, b.ways rest = [] := by
  obtain ⟨shorter, heq, hshorter⟩ := Text.behindRuns_eq p cs
  refine ⟨shorter, heq, ?_⟩
  intro rest hrest
  obtain ⟨c, more, hc, rfl⟩ := hshorter rest hrest
  exact h c more hc

/-- A run with a pattern behind it that begins outside its class is as long as it can be. -/
theorem ways_most_seq (h : b.BeginsOutside p) (cs : List Char) :
    (seq (most p) b).ways cs = b.ways (cs.dropWhile p) := by
  obtain ⟨shorter, heq, hnone⟩ := h.behindRuns_eq cs
  simpa [ways, heq, List.flatMap_map] using hnone

/-- The longest run is preferred. -/
theorem head?_ways_most (p : Char → Bool) (cs : List Char) :
    ((most p).ways cs).head? = some ⟨[], cs.dropWhile p⟩ := by
  obtain ⟨shorter, heq, _⟩ := Text.behindRuns_eq p cs
  simp [ways, heq]

theorem head?_ways_most_seq (h : (b.ways (cs.dropWhile p)).head? = some m) :
    ((seq (most p) b).ways cs).head? = some m := by
  obtain ⟨shorter, heq, _⟩ := Text.behindRuns_eq p cs
  simp [ways, heq, List.head?_append, h]

theorem ways_keep_most_seq (h : b.BeginsOutside p) (cs : List Char) :
    (seq (keep (most p)) b).ways cs
      = (b.ways (cs.dropWhile p)).map fun m => ⟨cs.takeWhile p :: m.kept, m.rest⟩ := by
  obtain ⟨shorter, heq, hnone⟩ := h.behindRuns_eq cs
  have hfront : inFront cs (cs.dropWhile p) = cs.takeWhile p := by
    conv => lhs; arg 1; rw [← List.takeWhile_append_dropWhile (p := p) (l := cs)]
    exact inFront_append _ _
  simpa [ways, heq, List.flatMap_map, List.map_map, hfront] using hnone

/-- A run that is preferred short ends at the first place where the pattern behind it matches. -/
theorem head?_ways_keep_least_seq {front rest : List Char} (hfront : ∀ c ∈ front, p c = true)
    (hnone : ∀ part, part ≠ [] → part <:+ front → b.ways (part ++ rest) = [])
    (h : (b.ways rest).head? = some m) :
    ((seq (keep (least p)) b).ways (front ++ rest)).head? = some ⟨front :: m.kept, m.rest⟩ := by
  obtain ⟨shorter, longer, heq, hshorter⟩ := exists_behindRuns_append hfront rest
  have hways : (seq (keep (least p)) b).ways (front ++ rest)
      = (shorter ++ rest :: longer).flatMap fun behind =>
        (b.ways behind).map fun m => ⟨inFront (front ++ rest) behind :: m.kept, m.rest⟩ := by
    rw [← heq]
    simp [ways, List.flatMap_map]
  have hothers : (shorter.flatMap fun behind => (b.ways behind).map fun m =>
      (⟨inFront (front ++ rest) behind :: m.kept, m.rest⟩ : Match)) = [] := by
    refine List.flatMap_eq_nil_iff.mpr ?_
    intro behind hbehind
    obtain ⟨part, hpart, hsuffix, rfl⟩ := hshorter behind hbehind
    rw [hnone part hpart hsuffix]
    rfl
  rw [hways, List.flatMap_append, hothers, List.nil_append, List.flatMap_cons, List.head?_append,
    List.head?_map, h, inFront_append]
  rfl

/-! ### Quotations -/

/-- A stretch in quotes, which is kept. -/
def quotation (quote : Char) : Pattern :=
  seq (one (· == quote)) (seq (keep (most (· != quote))) (one (· == quote)))

/-- A stretch in quotes ends at the next quote. -/
theorem ways_quotation (quote c : Char) (cs : List Char) :
    (quotation quote).ways (c :: cs)
      = if c = quote then ((upTo quote cs).map fun (t, rest) => ⟨[t], rest⟩).toList else [] := by
  have houtside : (one (· == quote)).BeginsOutside (· != quote) :=
    beginsOutside_one (by simp)
  rw [quotation, ways_one_seq, ways_keep_most_seq houtside, upTo_eq]
  simp only [beq_iff_eq]
  congr 1
  cases hrest : cs.dropWhile (· != quote) with
  | nil => rfl
  | cons d rest =>
    have hd : d = quote := by
      have := List.head?_dropWhile_not (· != quote) cs
      simpa [hrest] using this
    simp [ways, hd]

end Pattern

/-- A pattern to search a text for: it matches at least one character. -/
structure Search where
  pattern : Pattern
  consumes : pattern.consumes = true

namespace Search

variable {s : Search} {c : Char} {cs : List Char} {m : Match}

theorem length_of_head?_ways (h : (s.pattern.ways cs).head? = some m) :
    m.rest.length < cs.length :=
  Pattern.length_of_mem_ways s.consumes (List.mem_of_head? h)

/-- A text cut at the matches of a search: what is before the first match, then each match with
what is between it and the next one. -/
def cut (s : Search) (cs : List Char) : List Char × List (Match × List Char) :=
  match cs with
  | [] => ([], [])
  | c :: cs =>
    match _h : (s.pattern.ways (c :: cs)).head? with
    | some m => ([], (m, (s.cut m.rest).1) :: (s.cut m.rest).2)
    | none => (c :: (s.cut cs).1, (s.cut cs).2)
termination_by cs.length
decreasing_by
  · exact length_of_head?_ways _h
  · simp

theorem cut_nil (s : Search) : s.cut [] = ([], []) := by rw [cut]

/-- Where the pattern matches, the text is cut. -/
theorem cut_of_head?_ways (h : (s.pattern.ways (c :: cs)).head? = some m) :
    s.cut (c :: cs) = ([], (m, (s.cut m.rest).1) :: (s.cut m.rest).2) := by
  rw [cut]
  split
  next m' h' =>
    obtain rfl : m = m' := by simpa [h] using h'
    rfl
  next h' => simp [h] at h'

/-- Where it does not match, the next character is looked at. -/
theorem cut_of_ways_eq_nil (h : s.pattern.ways (c :: cs) = []) :
    s.cut (c :: cs) = (c :: (s.cut cs).1, (s.cut cs).2) := by
  rw [cut]
  split
  next h' => simp [h] at h'
  next => rfl

/-- What lies between the matches. -/
def between (s : Search) (cs : List Char) : List (List Char) :=
  (s.cut cs).1 :: (s.cut cs).2.map Prod.snd

/-- What the matches keep, of each match the first stretch. -/
def kept (s : Search) (cs : List Char) : List (List Char) :=
  (s.cut cs).2.filterMap (·.1.kept.head?)

/-- The text with something else in the place of each match. -/
def replace (s : Search) (f : Match → List Char) (cs : List Char) : List Char :=
  (s.cut cs).1 ++ (s.cut cs).2.flatMap fun found => f found.1 ++ found.2

theorem kept_of_head?_ways (h : (s.pattern.ways (c :: cs)).head? = some m) :
    s.kept (c :: cs) = m.kept.head?.toList ++ s.kept m.rest := by
  rw [kept, cut_of_head?_ways h, List.filterMap_cons]
  cases m.kept.head? <;> simp [kept]

theorem kept_of_ways_eq_nil (h : s.pattern.ways (c :: cs) = []) : s.kept (c :: cs) = s.kept cs := by
  rw [kept, cut_of_ways_eq_nil h]
  rfl

theorem replace_nil (s : Search) (f : Match → List Char) : s.replace f [] = [] := by
  simp [replace, cut_nil]

theorem replace_of_head?_ways (f : Match → List Char)
    (h : (s.pattern.ways (c :: cs)).head? = some m) :
    s.replace f (c :: cs) = f m ++ s.replace f m.rest := by
  simp [replace, cut_of_head?_ways h]

theorem replace_of_ways_eq_nil (f : Match → List Char) (h : s.pattern.ways (c :: cs) = []) :
    s.replace f (c :: cs) = c :: s.replace f cs := by
  simp [replace, cut_of_ways_eq_nil h]

end Search

end DocTemplate.Text
