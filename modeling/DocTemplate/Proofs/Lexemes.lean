/-
What argument texts are made up of.

An argument text is a row of lexemes: separators, stretches in quotes, and runs that go on to the
next separator.  A lexeme that begins with a quote is in quotes whenever the quote is closed
somewhere behind it; otherwise the quote is a character of the run like any other.  Every text is
such a row, and in one way only, since the first lexeme of a text is the one that fits what is
behind it.

* `Pipeline.lexeme?_eq_some_iff` — the first lexeme of a text;
* `Pipeline.existsUnique_lexes` — every text is made up of lexemes in exactly one way;
* `Pipeline.argumentsOf_of_lexes` — its arguments are those of its lexemes;
* `Pipeline.kept_argument` — they are what a search for quotations and runs keeps.
-/
import DocTemplate.Proofs.Cuts
import DocTemplate.Proofs.Pattern
import Mathlib.Data.List.TakeWhile
import Mathlib.Data.Nat.Init

namespace DocTemplate.Pipeline

open DocTemplate.Text

variable {c : Char} {cs rest : List Char}

/-! ### Lexemes -/

/-- What an argument text is made up of. -/
inductive Lexeme where
  | separator (c : Char)
  | quoted (quote : Char) (text : List Char)
  | run (text : List Char)
  deriving DecidableEq, Repr

namespace Lexeme

/-- A lexeme as it stands in the text. -/
def text : Lexeme → List Char
  | separator c => [c]
  | quoted quote t => quote :: (t ++ [quote])
  | run t => t

/-- The argument that a lexeme is; a separator is none. -/
def argument? : Lexeme → Option (List Char)
  | separator _ => none
  | quoted _ t => some t
  | run t => some t

/-- Whether a lexeme may stand in front of a text. -/
def Fits : Lexeme → List Char → Prop
  | separator c, _ => isSeparator c = true
  | quoted quote t, _ => isQuote quote = true ∧ quote ∉ t
  -- A run goes on to the next separator, and a quote that it begins with is never closed.
  | run t, rest => t ≠ [] ∧ (∀ c ∈ t, isSeparator c = false)
      ∧ (∀ c, rest.head? = some c → isSeparator c = true)
      ∧ ∀ quote, t.head? = some quote → isQuote quote = true → quote ∉ t.tail ++ rest

theorem text_ne_nil {l : Lexeme} (h : l.Fits rest) : l.text ≠ [] := by
  cases l with
  | separator | quoted => simp [text]
  | run t => exact h.1

end Lexeme

/-- The lexemes of a text, one after the other, each fitting what is behind it. -/
inductive Lexes : List Lexeme → List Char → Prop
  | nil : Lexes [] []
  | cons {l : Lexeme} {ls : List Lexeme} {rest : List Char} :
      l.Fits rest → Lexes ls rest → Lexes (l :: ls) (l.text ++ rest)

/-- The first lexeme of a text and what is behind it. -/
def lexeme? : List Char → Option (Lexeme × List Char)
  | [] => none
  | c :: cs =>
    if isSeparator c then some (.separator c, cs)
    else
      match quotedArgument? c cs with
      | some (t, rest) => some (.quoted c t, rest)
      | none => some (.run (c :: cs.takeWhile (! isSeparator ·)), cs.dropWhile (! isSeparator ·))

theorem quotedArgument?_eq_some_iff {t : List Char} :
    quotedArgument? c cs = some (t, rest)
      ↔ isQuote c = true ∧ cs = t ++ c :: rest ∧ c ∉ t := by
  by_cases hc : isQuote c = true
  · simp [quotedArgument?, hc, upTo_eq_some_iff]
  · simp [quotedArgument?, hc]

theorem quotedArgument?_eq_none_iff :
    quotedArgument? c cs = none ↔ (isQuote c = true → c ∉ cs) := by
  by_cases hc : isQuote c = true
  · simp [quotedArgument?, hc, upTo_eq_none_iff]
  · simp [quotedArgument?, hc]

/-- The first lexeme is the one that fits. -/
theorem lexeme?_eq_some_iff {l : Lexeme} :
    lexeme? cs = some (l, rest) ↔ cs = l.text ++ rest ∧ l.Fits rest := by
  constructor
  · intro h
    cases cs with
    | nil => simp [lexeme?] at h
    | cons c cs =>
      rw [lexeme?] at h
      split at h
      next hc =>
        obtain ⟨rfl, rfl⟩ : .separator c = l ∧ cs = rest := by simpa using h
        exact ⟨rfl, hc⟩
      next hc =>
        split at h
        next t rest' hquoted =>
          obtain ⟨rfl, rfl⟩ : .quoted c t = l ∧ rest' = rest := by simpa using h
          obtain ⟨hquote, rfl, ht⟩ := quotedArgument?_eq_some_iff.mp hquoted
          exact ⟨by simp [Lexeme.text], hquote, ht⟩
        next hopen =>
          obtain ⟨rfl, rfl⟩ : .run (c :: cs.takeWhile (! isSeparator ·)) = l
              ∧ cs.dropWhile (! isSeparator ·) = rest := by simpa using h
          refine ⟨by simp [Lexeme.text, List.takeWhile_append_dropWhile], by simp, ?_, ?_, ?_⟩
          · intro d hd
            rcases List.mem_cons.mp hd with rfl | hd
            · simpa using hc
            · simpa using List.mem_takeWhile_imp hd
          · intro d hd
            have := List.head?_dropWhile_not (! isSeparator ·) cs
            simpa [hd] using this
          · intro quote hhead hquote
            obtain rfl : c = quote := by simpa using hhead
            rw [List.tail_cons, List.takeWhile_append_dropWhile]
            exact quotedArgument?_eq_none_iff.mp hopen hquote
  · rintro ⟨rfl, hfits⟩
    cases l with
    | separator c => simp [lexeme?, Lexeme.text, show isSeparator c = true from hfits]
    | quoted quote t =>
      have hquoted : quotedArgument? quote (t ++ quote :: rest) = some (t, rest) :=
        quotedArgument?_eq_some_iff.mpr ⟨hfits.1, rfl, hfits.2⟩
      simp [lexeme?, Lexeme.text, isSeparator_of_isQuote hfits.1, hquoted]
    | run t =>
      obtain ⟨hne, hrun, hend, hopen⟩ := hfits
      obtain ⟨c, t, rfl⟩ := List.exists_cons_of_ne_nil hne
      have hquoted : quotedArgument? c (t ++ rest) = none :=
        quotedArgument?_eq_none_iff.mpr (hopen c rfl)
      have htake : (t ++ rest).takeWhile (! isSeparator ·) = t := by
        rw [List.takeWhile_append_of_pos (by simpa using fun d hd => hrun d (by simp [hd]))]
        cases rest with
        | nil => simp
        | cons d rest => simp [hend d rfl]
      have hdrop : (t ++ rest).dropWhile (! isSeparator ·) = rest := by
        have happend := List.takeWhile_append_dropWhile (p := (! isSeparator ·)) (l := t ++ rest)
        rw [htake] at happend
        exact List.append_cancel_left happend
      simp [lexeme?, Lexeme.text, hrun c (by simp), hquoted, htake, hdrop]

theorem lexeme?_cons_ne_none (c : Char) (cs : List Char) : lexeme? (c :: cs) ≠ none := by
  rw [lexeme?]
  split
  next => simp
  next => split <;> simp

theorem length_of_lexeme? {l : Lexeme} (h : lexeme? cs = some (l, rest)) :
    rest.length < cs.length := by
  obtain ⟨rfl, hfits⟩ := lexeme?_eq_some_iff.mp h
  have hlt := List.length_pos_iff.mpr (Lexeme.text_ne_nil hfits)
  rw [List.length_append]
  omega

/-- Every text is made up of lexemes, in exactly one way. -/
theorem existsUnique_lexes (cs : List Char) : ∃! lexemes, Lexes lexemes cs := by
  induction hn : cs.length using Nat.strong_induction_on generalizing cs with
  | _ n ih =>
    cases cs with
    | nil =>
      refine ⟨[], .nil, ?_⟩
      intro lexemes hlexes
      generalize hnil : ([] : List Char) = source at hlexes
      cases hlexes with
      | nil => rfl
      | cons hfits => simp [Lexeme.text_ne_nil hfits] at hnil
    | cons c cs =>
      obtain ⟨⟨l, rest⟩, hfirst⟩ := Option.ne_none_iff_exists'.mp (lexeme?_cons_ne_none c cs)
      obtain ⟨htext, hfits⟩ := lexeme?_eq_some_iff.mp hfirst
      obtain ⟨ls, hlexes, hunique⟩ := ih _ (hn ▸ length_of_lexeme? hfirst) rest rfl
      refine ⟨l :: ls, htext ▸ .cons hfits hlexes, ?_⟩
      intro lexemes hothers
      generalize hsource : c :: cs = source at hothers
      cases hothers with
      | nil => simp at hsource
      | @cons l' ls' rest' hfits' hlexes' =>
        have hsame := lexeme?_eq_some_iff.mpr ⟨hsource, hfits'⟩
        obtain ⟨rfl, rfl⟩ : l = l' ∧ rest = rest' := by simpa [hfirst] using hsame
        rw [hunique ls' hlexes']

/-! ### Arguments -/

theorem argumentsOf_separator_cons (hc : isSeparator c = true) (cs : List Char) :
    argumentsOf (c :: cs) = argumentsOf cs := by
  rw [argumentsOf, if_pos hc]

theorem argumentsOf_of_lexeme? {l : Lexeme} (h : lexeme? cs = some (l, rest)) :
    argumentsOf cs = l.argument?.toList ++ argumentsOf rest := by
  cases cs with
  | nil => simp [lexeme?] at h
  | cons c cs =>
    rw [lexeme?] at h
    split at h
    next hc =>
      obtain ⟨rfl, rfl⟩ : .separator c = l ∧ cs = rest := by simpa using h
      exact argumentsOf_separator_cons hc cs
    next hc =>
      rw [argumentsOf, if_neg hc]
      split at h
      next t rest' hquoted =>
        obtain ⟨rfl, rfl⟩ : .quoted c t = l ∧ rest' = rest := by simpa using h
        split
        next t' rest'' h' =>
          obtain ⟨rfl, rfl⟩ : t = t' ∧ rest' = rest'' := by simpa using hquoted.symm.trans h'
          rfl
        next h' => simp [hquoted] at h'
      next hopen =>
        obtain ⟨rfl, rfl⟩ : .run (c :: cs.takeWhile (! isSeparator ·)) = l
            ∧ cs.dropWhile (! isSeparator ·) = rest := by simpa using h
        split
        next h' => simp [hopen] at h'
        next => rfl

/-- The arguments of a text are those of its lexemes. -/
theorem argumentsOf_of_lexes {lexemes : List Lexeme} (h : Lexes lexemes cs) :
    argumentsOf cs = lexemes.filterMap Lexeme.argument? := by
  induction h with
  | nil => simp [argumentsOf]
  | @cons l ls rest hfits _ ih =>
    have hfirst := lexeme?_eq_some_iff.mpr ⟨rfl, hfits⟩
    rw [argumentsOf_of_lexeme? hfirst, ih, List.filterMap_cons]
    cases l.argument? <;> rfl

theorem flatten_text_of_lexes {lexemes : List Lexeme} (h : Lexes lexemes cs) :
    (lexemes.map Lexeme.text).flatten = cs := by
  induction h with
  | nil => rfl
  | cons _ _ ih => rw [List.map_cons, List.flatten_cons, ih]

/-- The search for arguments: a stretch in double quotes, or else one in single quotes, or else
a run without separators. -/
def argument : Search :=
  ⟨.alt (.quotation '"') (.alt (.quotation '\'')
    (.keep (.seq (.one (! isSeparator ·)) (.most (! isSeparator ·))))), rfl⟩

/-- A stretch in one of the two quotes, where it begins with a quote at all. -/
theorem ways_quotations (c : Char) (cs : List Char) :
    (Pattern.quotation '"').ways (c :: cs) ++ (Pattern.quotation '\'').ways (c :: cs)
      = ((quotedArgument? c cs).map fun (t, rest) => ⟨[t], rest⟩).toList := by
  rw [Pattern.ways_quotation, Pattern.ways_quotation, quotedArgument?]
  by_cases hdouble : c = '"'
  · simp [hdouble, isQuote]
  · by_cases hsingle : c = '\''
    · simp [hsingle, isQuote]
    · simp [hdouble, hsingle, isQuote]

theorem ways_run (c : Char) (cs : List Char) :
    ((Pattern.keep (.seq (.one (! isSeparator ·)) (.most (! isSeparator ·)))).ways (c :: cs)).head?
      = if isSeparator c then none
        else some ⟨[c :: cs.takeWhile (! isSeparator ·)], cs.dropWhile (! isSeparator ·)⟩ := by
  have hfront : inFront (c :: cs) (cs.dropWhile (! isSeparator ·))
      = c :: cs.takeWhile (! isSeparator ·) := by
    conv => lhs; arg 1; rw [← List.takeWhile_append_dropWhile (p := (! isSeparator ·)) (l := cs)]
    exact inFront_append (c :: _) _
  rw [Pattern.ways, List.head?_map, Pattern.ways_one_seq]
  by_cases hc : isSeparator c = true
  · simp [hc]
  · simp [hc, Pattern.head?_ways_most, hfront]

/-- The search finds the first lexeme unless that is a separator. -/
theorem head?_ways_argument (c : Char) (cs : List Char) :
    (argument.pattern.ways (c :: cs)).head?
      = (lexeme? (c :: cs)).bind fun (l, rest) => l.argument?.map fun t => ⟨[t], rest⟩ := by
  have hrun := ways_run c cs
  have hquotations := ways_quotations c cs
  rw [argument, Pattern.ways, Pattern.ways, ← List.append_assoc, hquotations, List.head?_append,
    hrun, lexeme?]
  by_cases hc : isSeparator c = true
  · have hquote : quotedArgument? c cs = none := by
      rw [quotedArgument?_eq_none_iff]
      intro hquote
      simp [isSeparator_of_isQuote hquote] at hc
    simp [hc, hquote, Lexeme.argument?]
  · cases quotedArgument? c cs <;> simp [hc, Lexeme.argument?]

/-- The stretches that the search keeps are the arguments of a text. -/
theorem kept_argument (cs : List Char) : argument.kept cs = argumentsOf cs := by
  induction hn : cs.length using Nat.strong_induction_on generalizing cs with
  | _ n ih =>
    cases cs with
    | nil => simp [Search.kept, Search.cut_nil, argumentsOf]
    | cons c cs =>
      obtain ⟨⟨l, rest⟩, hfirst⟩ := Option.ne_none_iff_exists'.mp (lexeme?_cons_ne_none c cs)
      have hlength := length_of_lexeme? hfirst
      have hhead := head?_ways_argument c cs
      rw [hfirst] at hhead
      rw [argumentsOf_of_lexeme? hfirst, ← ih _ (hn ▸ hlength) rest rfl]
      cases l with
      | separator d =>
        obtain ⟨_, rfl⟩ : c = d ∧ cs = rest := by
          simpa [Lexeme.text] using (lexeme?_eq_some_iff.mp hfirst).1
        exact Search.kept_of_ways_eq_nil (List.head?_eq_none_iff.mp hhead)
      | quoted quote t => exact Search.kept_of_head?_ways hhead
      | run t => exact Search.kept_of_head?_ways hhead

/-- A separator at the end of a text is no argument. -/
theorem lexes_append_separator {lexemes : List Lexeme} (h : Lexes lexemes cs)
    (hc : isSeparator c = true) : Lexes (lexemes ++ [.separator c]) (cs ++ [c]) := by
  induction h with
  | nil => exact Lexes.cons (l := .separator c) hc .nil
  | @cons l ls rest hfits _ ih =>
    rw [List.append_assoc, List.cons_append]
    refine .cons ?_ ih
    cases l with
    | separator | quoted => exact hfits
    | run t =>
      obtain ⟨hne, hrun, hend, hopen⟩ := hfits
      refine ⟨hne, hrun, ?_, ?_⟩
      · intro d hd
        cases rest with
        | nil =>
          obtain rfl : c = d := by simpa using hd
          exact hc
        | cons e rest => exact hend d hd
      · intro quote hhead hquote
        have hother : quote ≠ c := by
          rintro rfl
          simp [isSeparator_of_isQuote hquote] at hc
        simpa [hother] using hopen quote hhead hquote

theorem argumentsOf_append_separator (hc : isSeparator c = true) (cs : List Char) :
    argumentsOf (cs ++ [c]) = argumentsOf cs := by
  obtain ⟨lexemes, hlexes, _⟩ := existsUnique_lexes cs
  rw [argumentsOf_of_lexes (lexes_append_separator hlexes hc), argumentsOf_of_lexes hlexes]
  simp [Lexeme.argument?]

end DocTemplate.Pipeline
