/-
The grammar of pipelines.

Every text is a pipeline, also one that nobody meant to be.  It is cut by a search for pipes with
the spaces around them.  There is a call for each piece between pipes, at least one; the first
colon of a piece ends its name, and what is behind the colon are its arguments.  Spaces beside a
pipe stand at the ends of a piece, where they are blanks around a name or separators around
arguments: no quote reaches over a pipe, so they never belong to anything.

* `Pipeline.between_pipes` — what lies between the pipes that the search finds;
* `Pipeline.calls_eq_map_pieces` — the calls are read from the pieces with their spaces;
* `Pipeline.calls_append_spaced_pipe` — the calls before and behind a pipe;
* `Pipeline.calls_follow_grammar` — calls and arguments of every text.
-/
import DocTemplate.Proofs.Lexemes
import Mathlib.Data.List.Basic
import Mathlib.Data.List.Induction

namespace DocTemplate.Pipeline

open DocTemplate.Text

variable {c : Char} {cs before piece more : List Char}

/-! ### Pipes -/

/-- The search for pipes, with as many spaces on both sides as there are. -/
def pipes : Search :=
  ⟨.seq (.most (· = ' ')) (.seq (.one (· = '|')) (.most (· = ' '))), rfl⟩

theorem ways_pipes (cs : List Char) :
    pipes.pattern.ways cs
      = (Pattern.seq (.one (· = '|')) (.most (· = ' '))).ways (dropSpaces cs) := by
  have houtside : (Pattern.seq (.one (· = '|')) (.most (· = ' '))).BeginsOutside (· = ' ') :=
    Pattern.beginsOutside_one_seq (by simp) _
  exact Pattern.ways_most_seq houtside cs

theorem head?_ways_pipes (h : dropSpaces cs = '|' :: more) :
    (pipes.pattern.ways cs).head? = some ⟨[], dropSpaces more⟩ := by
  rw [ways_pipes, h, Pattern.ways_one_seq, if_pos (by simp), Pattern.head?_ways_most]
  rfl

theorem ways_pipes_eq_nil (h : (dropSpaces cs).head? ≠ some '|') : pipes.pattern.ways cs = [] := by
  rw [ways_pipes]
  cases hspaces : dropSpaces cs with
  | nil => simp [Pattern.ways]
  | cons c cs =>
    rw [hspaces, List.head?_cons, ne_eq, Option.some_inj] at h
    rw [Pattern.ways_one_seq, if_neg (by simpa using h)]

theorem dropSpaces_length_le (cs : List Char) : (dropSpaces cs).length ≤ cs.length :=
  (List.dropWhile_sublist _).length_le

theorem dropSpacesEnd_cons_of_spaces (h : dropSpaces cs = []) : dropSpacesEnd cs = [] := by
  have hall : ∀ c ∈ cs, c = ' ' := by simpa [dropSpaces] using h
  rw [dropSpacesEnd, dropSpaces, List.reverse_eq_nil_iff, List.dropWhile_eq_nil_iff]
  intro c hc
  simpa using hall c (List.mem_reverse.mp hc)

/-- The first character stays unless there are only spaces. -/
theorem dropSpacesEnd_cons (h : dropSpaces (c :: cs) ≠ []) :
    dropSpacesEnd (c :: cs) = c :: dropSpacesEnd cs := by
  obtain ⟨d, hd, hspace⟩ : ∃ d ∈ c :: cs, d ≠ ' ' := by
    by_contra hall
    push Not at hall
    exact h (by simpa [dropSpaces] using hall)
  rcases List.mem_cons.mp hd with rfl | hd
  · exact dropSpacesEnd_append_cons hspace [] cs
  · obtain ⟨front, back, rfl⟩ := List.append_of_mem hd
    rw [dropSpacesEnd_append_cons hspace, ← List.cons_append, dropSpacesEnd_append_cons hspace]
    rfl

theorem between_of_not_mem (h : '|' ∉ cs) : pipes.between cs = [cs] := by
  have hcut : pipes.cut cs = (cs, []) := by
    induction cs with
    | nil => exact pipes.cut_nil
    | cons c cs ih =>
      have hhead : (dropSpaces (c :: cs)).head? ≠ some '|' := by
        intro hpipe
        exact not_mem_dropSpaces h (List.mem_of_head? hpipe)
      rw [Search.cut_of_ways_eq_nil (ways_pipes_eq_nil hhead), ih (List.not_mem_of_not_mem_cons h)]
  simp [Search.between, hcut]

/-- A pipe is found with all the spaces in front of it and behind it. -/
theorem between_append_pipe (h : '|' ∉ before) (more : List Char) :
    pipes.between (before ++ '|' :: more)
      = dropSpacesEnd before :: pipes.between (dropSpaces more) := by
  have hfound {spaces : List Char} (hspaces : dropSpaces spaces = []) :
      pipes.cut (spaces ++ '|' :: more)
        = ([], (⟨[], dropSpaces more⟩, (pipes.cut (dropSpaces more)).1)
          :: (pipes.cut (dropSpaces more)).2) := by
    have hdrop : dropSpaces (spaces ++ '|' :: more) = '|' :: more := by
      rw [dropSpaces_append_cons (by decide), hspaces]
      rfl
    obtain ⟨c, cs, hcs⟩ : ∃ c cs, spaces ++ '|' :: more = c :: cs :=
      List.exists_cons_of_ne_nil (by simp)
    rw [hcs] at hdrop ⊢
    exact Search.cut_of_head?_ways (head?_ways_pipes hdrop)
  have hcut : pipes.cut (before ++ '|' :: more)
      = (dropSpacesEnd before, (⟨[], dropSpaces more⟩, (pipes.cut (dropSpaces more)).1)
        :: (pipes.cut (dropSpaces more)).2) := by
    induction before with
    | nil => exact hfound rfl
    | cons c before ih =>
      by_cases hspaces : dropSpaces (c :: before) = []
      · rw [hfound hspaces, dropSpacesEnd_cons_of_spaces hspaces]
      · have hhead : (dropSpaces (c :: (before ++ '|' :: more))).head? ≠ some '|' := by
          rw [← List.cons_append, dropSpaces_append_cons (by decide),
            List.head?_append_of_ne_nil _ hspaces]
          intro hpipe
          exact not_mem_dropSpaces h (List.mem_of_head? hpipe)
        rw [List.cons_append, Search.cut_of_ways_eq_nil (ways_pipes_eq_nil hhead),
          ih (List.not_mem_of_not_mem_cons h), dropSpacesEnd_cons hspaces]
  simp [Search.between, hcut]

theorem cutAtPipes_of_not_mem (h : '|' ∉ cs) : cutAtPipes cs = [cs] := by
  rw [cutAtPipes, pieces_of_not_mem h]
  rfl

/-- Spaces in front of a text stand in its first piece. -/
theorem pieces_dropSpaces {p : List Char} {ps : List (List Char)} (h : pieces '|' cs = p :: ps) :
    pieces '|' (dropSpaces cs) = dropSpaces p :: ps := by
  induction cs generalizing p with
  | nil =>
    obtain ⟨rfl, rfl⟩ : [] = p ∧ [] = ps := by simpa [pieces] using h
    rfl
  | cons c cs ih =>
    by_cases hc : c = ' '
    · subst hc
      obtain ⟨q, qs, hq⟩ := List.exists_cons_of_ne_nil (pieces_ne_nil '|' cs)
      obtain ⟨rfl, rfl⟩ : ' ' :: q = p ∧ qs = ps := by simpa [pieces, hq, extendFirst] using h
      exact ih (p := q) hq
    · have hsame : dropSpaces (c :: cs) = c :: cs := by simp [dropSpaces, hc]
      rw [hsame, h, List.cons.injEq]
      refine ⟨?_, rfl⟩
      rw [pieces] at h
      split at h
      next => simp_all [dropSpaces]
      next =>
        obtain ⟨q, qs, hq⟩ := List.exists_cons_of_ne_nil (pieces_ne_nil '|' cs)
        obtain ⟨rfl, rfl⟩ : c :: q = p ∧ qs = ps := by simpa [hq, extendFirst] using h
        simp [dropSpaces, hc]

theorem cutAtPipes_append_pipe (h : '|' ∉ before) (more : List Char) :
    cutAtPipes (before ++ '|' :: more) = dropSpacesEnd before :: cutAtPipes (dropSpaces more) := by
  obtain ⟨p, ps, hp⟩ := List.exists_cons_of_ne_nil (pieces_ne_nil '|' more)
  rw [cutAtPipes, cutAtPipes, pieces_append_cons, pieces_of_not_mem h, pieces_dropSpaces hp, hp]
  cases ps <;> rfl

/-- What lies between the pipes that the search finds are the pieces of a pipeline. -/
theorem between_pipes (cs : List Char) : pipes.between cs = cutAtPipes cs := by
  induction hn : cs.length using Nat.strong_induction_on generalizing cs with
  | _ n ih =>
    by_cases hpipe : '|' ∈ cs
    · obtain ⟨before, more, rfl, hbefore⟩ := List.eq_append_cons_of_mem hpipe
      have hlength : (dropSpaces more).length < n := by
        have := dropSpaces_length_le more
        simp only [List.length_append, List.length_cons] at hn
        omega
      rw [between_append_pipe hbefore, cutAtPipes_append_pipe hbefore, ih _ hlength _ rfl]
    · rw [between_of_not_mem hpipe, cutAtPipes_of_not_mem hpipe]

/-! ### Calls -/

/-- What stands in a piece before its first colon. -/
def beforeColon (piece : List Char) : List Char := piece.takeWhile (· != ':')

/-- What stands in a piece behind its first colon, nothing if there is none. -/
def behindColon (piece : List Char) : List Char := (piece.dropWhile (· != ':')).tail

theorem callOf_eq (piece : List Char) :
    callOf piece = ⟨String.ofList (trimChars (beforeColon piece)),
      (argumentsOf (behindColon piece)).map String.ofList⟩ := by
  rw [callOf, nameAndRest, upTo_eq, beforeColon, behindColon]
  cases hrest : piece.dropWhile (· != ':') with
  | nil =>
    have happend := List.takeWhile_append_dropWhile (p := (· != ':')) (l := piece)
    rw [hrest, List.append_nil] at happend
    simp [happend]
  | cons c rest => simp

theorem trimChars_append_space (cs : List Char) : trimChars (cs ++ [' ']) = trimChars cs := by
  have hend (front : List Char) : trimEnd (front ++ [' ']) = trimEnd front := by
    simp [trimEnd, show isBlank ' ' = true by decide]
  rw [trimChars, trimChars, trimStart, trimStart, List.dropWhile_append]
  split
  next h => simp [List.isEmpty_iff.mp h, show isBlank ' ' = true by decide]
  next => rw [hend]

/-- A space in front of a piece belongs to the blanks around the name. -/
theorem callOf_space_cons (piece : List Char) : callOf (' ' :: piece) = callOf piece := by
  have hname : trimChars (' ' :: beforeColon piece) = trimChars (beforeColon piece) := rfl
  rw [callOf_eq, callOf_eq, ← hname]
  rfl

/-- A space behind a piece is a separator behind its arguments, or belongs to the name. -/
theorem callOf_append_space (piece : List Char) : callOf (piece ++ [' ']) = callOf piece := by
  by_cases hcolon : ':' ∈ piece
  · obtain ⟨name, rest, rfl, hname⟩ := List.eq_append_cons_of_mem hcolon
    rw [List.append_assoc, List.cons_append, callOf_append_colon hname, callOf_append_colon hname,
      argumentsOf_append_separator rfl]
  · rw [callOf_of_not_mem hcolon, callOf_of_not_mem (by simpa using hcolon), trimChars_append_space]

theorem callOf_dropSpaces (piece : List Char) : callOf (dropSpaces piece) = callOf piece := by
  induction piece with
  | nil => rfl
  | cons c piece ih =>
    by_cases hc : c = ' '
    · subst hc
      rw [callOf_space_cons, ← ih]
      rfl
    · simp [dropSpaces, hc]

theorem callOf_dropSpacesEnd (piece : List Char) : callOf (dropSpacesEnd piece) = callOf piece := by
  induction piece using List.reverseRecOn with
  | nil => rfl
  | append_singleton piece c ih =>
    by_cases hc : c = ' '
    · subst hc
      rw [callOf_append_space, ← ih]
      simp [dropSpacesEnd, dropSpaces]
    · simp [dropSpacesEnd, dropSpaces, hc]

theorem map_callOf_dropBesidePipes (first : Bool) (ps : List (List Char)) :
    (dropBesidePipes first ps).map callOf = ps.map callOf := by
  induction first, ps using dropBesidePipes.induct with
  | case1 => rfl
  | case2 first p => cases first <;> simp [dropBesidePipes, callOf_dropSpaces]
  | case3 first p q ps ih =>
    rw [dropBesidePipes, List.map_cons, ih, callOf_dropSpacesEnd]
    cases first <;> simp [callOf_dropSpaces]

/-- The spaces beside the pipes do not matter to the calls. -/
theorem calls_eq_map_pieces (text : String) :
    calls text = (pieces '|' text.toList).map callOf := by
  rw [calls, cutAtPipes, map_callOf_dropBesidePipes]

/-- What has no pipe and stands behind a text belongs to its last piece. -/
theorem exists_last_piece (cs : List Char) :
    ∃ ps last, pieces '|' cs = ps ++ [last]
      ∧ ∀ more, '|' ∉ more → pieces '|' (cs ++ more) = ps ++ [last ++ more] := by
  induction cs with
  | nil => exact ⟨[], [], rfl, fun more hmore => pieces_of_not_mem hmore⟩
  | cons c cs ih =>
    obtain ⟨ps, last, hpieces, hmore⟩ := ih
    by_cases hc : c = '|'
    · refine ⟨[] :: ps, last, by simp [pieces, hc, hpieces], ?_⟩
      intro more h
      simp [pieces, hc, hmore more h]
    · cases ps with
      | nil =>
        refine ⟨[], c :: last, by simp [pieces, hc, hpieces, extendFirst], ?_⟩
        intro more h
        simp [pieces, hc, hmore more h, extendFirst]
      | cons p ps =>
        refine ⟨(c :: p) :: ps, last, by simp [pieces, hc, hpieces, extendFirst], ?_⟩
        intro more h
        simp [pieces, hc, hmore more h, extendFirst]

/-- A number of spaces. -/
def spaces (n : Nat) : String := String.ofList (List.replicate n ' ')

theorem calls_append_spaces (text : String) (n : Nat) : calls (text ++ spaces n) = calls text := by
  obtain ⟨ps, last, hpieces, hmore⟩ := exists_last_piece text.toList
  have hlast : callOf (last ++ List.replicate n ' ') = callOf last := by
    induction n with
    | zero => simp
    | succ n ih => rw [List.replicate_succ', ← List.append_assoc, callOf_append_space, ih]
  have hpieces' := hmore (List.replicate n ' ') (by simp [List.mem_replicate])
  simp [calls_eq_map_pieces, spaces, hpieces, hpieces', hlast]

theorem calls_spaces_append (n : Nat) (text : String) : calls (spaces n ++ text) = calls text := by
  have hfirst (cs : List Char) :
      (pieces '|' (dropSpaces cs)).map callOf = (pieces '|' cs).map callOf := by
    obtain ⟨p, ps, hp⟩ := List.exists_cons_of_ne_nil (pieces_ne_nil '|' cs)
    rw [hp, pieces_dropSpaces hp, List.map_cons, List.map_cons, callOf_dropSpaces]
  have hspaces : dropSpaces (List.replicate n ' ' ++ text.toList) = dropSpaces text.toList := by
    rw [dropSpaces, List.dropWhile_append_of_pos (by simp [List.mem_replicate]), dropSpaces]
  rw [calls_eq_map_pieces, calls_eq_map_pieces, ← hfirst text.toList, ← hspaces, hfirst, spaces,
    String.toList_append, String.toList_ofList]

theorem calls_append_pipe (front back : String) :
    calls (front ++ "|" ++ back) = calls front ++ calls back := by
  simp [calls_eq_map_pieces, pieces_append_cons]

/-- The calls before a pipe and those behind it, whatever spaces there are between. -/
theorem calls_append_spaced_pipe (front back : String) (m n : Nat) :
    calls (front ++ spaces m ++ "|" ++ spaces n ++ back) = calls front ++ calls back := by
  have hassoc : front ++ spaces m ++ "|" ++ spaces n ++ back
      = (front ++ spaces m) ++ "|" ++ (spaces n ++ back) := by simp [String.append_assoc]
  rw [hassoc, calls_append_pipe, calls_append_spaces, calls_spaces_append]

/-! ### The grammar -/

/-- How a text is read as a pipeline. -/
structure ReadsCalls (text : String) : Prop where
  /-- The pipes are searched for, and the arguments in each piece. -/
  searched : calls text = (pipes.between text.toList).map fun piece =>
    ⟨Text.trim (String.ofList (beforeColon piece)),
      (argument.kept (behindColon piece)).map String.ofList⟩
  /-- There is one call for each piece between pipes. -/
  pieces : ∃ ps : List (List Char), joined '|' ps = text.toList ∧ (∀ piece ∈ ps, '|' ∉ piece)
    ∧ calls text = ps.map fun piece =>
      ⟨Text.trim (String.ofList (beforeColon piece)),
        arguments (String.ofList (behindColon piece))⟩
  length : (calls text).length = text.toList.count '|' + 1
  /-- Spaces beside a pipe do not matter. -/
  spaced : ∀ front back : String, text = front ++ "|" ++ back → ∀ m n : Nat,
    calls (front ++ spaces m ++ "|" ++ spaces n ++ back) = calls text

/-- How a text is read as arguments. -/
structure ReadsArguments (source : String) : Prop where
  searched : arguments source = (argument.kept source.toList).map String.ofList
  /-- The text is made up of lexemes in one way, and the arguments are among them. -/
  lexemes : ∃ lexemes, Lexes lexemes source.toList
    ∧ (lexemes.map Lexeme.text).flatten = source.toList
    ∧ arguments source = (lexemes.filterMap Lexeme.argument?).map String.ofList
    ∧ ∀ others, Lexes others source.toList → others = lexemes

/-- Every text follows the grammar, as a pipeline and as arguments. -/
theorem calls_follow_grammar (text : String) : ReadsCalls text ∧ ReadsArguments text := by
  have hcall (piece : List Char) : callOf piece
      = ⟨Text.trim (String.ofList (beforeColon piece)),
        arguments (String.ofList (behindColon piece))⟩ := by
    rw [callOf_eq, Text.trim, arguments, String.toList_ofList, String.toList_ofList]
  constructor
  · constructor
    · rw [calls, between_pipes]
      refine List.map_congr_left ?_
      intro piece _
      rw [hcall, kept_argument, arguments, String.toList_ofList]
    · refine ⟨pieces '|' text.toList, joined_pieces '|' _, ?_, ?_⟩
      · intro piece hpiece
        exact not_mem_of_mem_pieces hpiece
      · rw [calls_eq_map_pieces]
        exact List.map_congr_left fun piece _ => hcall piece
    · exact length_calls text
    · rintro front back rfl m n
      rw [calls_append_spaced_pipe, calls_append_pipe]
  · obtain ⟨lexemes, hlexes, hunique⟩ := existsUnique_lexes text.toList
    constructor
    · rw [arguments, kept_argument]
    · exact ⟨lexemes, hlexes, flatten_text_of_lexes hlexes,
        by rw [arguments, argumentsOf_of_lexes hlexes], hunique⟩

/-- A quote that no other quote closes runs to the spaces before the next pipe. -/
example : calls "x || f : 'a  b  |'c'd"
    = [⟨"x", []⟩, ⟨"", []⟩, ⟨"f", ["'a", "b"]⟩, ⟨"'c'd", []⟩] := by
  cbv

end DocTemplate.Pipeline
