/-
What quotes protect.

A pipeline is cut at its pipes, and a piece at its first colon, before anything looks
at quotes.  Single quotes around a text make it a literal when they are still at the
two ends of a name then; quotes around an argument hold it together only when no pipe
has parted them.  Main facts:

* `stages_quoted` — a text in single quotes is a literal when it has neither a pipe nor a
  colon;
* `getElem?_calls_quoted_iff` — a text in quotes is the one argument of a helper exactly
  when it has no pipe;
* `quoting_protects` — both, with what the literal leaves in a rendered document.
-/
import DocTemplate.Proofs.DocumentOrder
import DocTemplate.Proofs.Faults
import DocTemplate.Proofs.Grammar

namespace DocTemplate

open DocTemplate.Text

namespace Stage

theorem length_ofCalls (calls : List Call) : (ofCalls calls).length = calls.length := by
  cases calls <;> simp [ofCalls]

/-- Behind the first stage every stage is the helper that its call names. -/
theorem getElem?_ofCalls (calls : List Call) (i : Nat) :
    (ofCalls calls)[i + 1]? = calls[i + 1]?.map ofLater := by
  cases calls <;> simp [ofCalls]

end Stage

namespace Pipeline

variable {quote : Char} {name t s more : List Char}

/-! ### Arguments -/

/-- A text in quotes is an argument. -/
theorem argumentsOf_quoted (hquote : isQuote quote = true) (ht : quote ∉ t) (rest : List Char) :
    argumentsOf (quote :: (t ++ quote :: rest)) = t :: argumentsOf rest := by
  have hup : quotedArgument? quote (t ++ quote :: rest) = some (t, rest) := by
    rw [quotedArgument?, if_pos hquote]
    exact upTo_eq_some_iff.mpr ⟨rfl, ht⟩
  rw [argumentsOf, if_neg (by simp [isSeparator_of_isQuote hquote])]
  split
  next arg rest' h =>
    obtain ⟨rfl, rfl⟩ : t = arg ∧ rest = rest' := by simpa using hup.symm.trans h
    rfl
  next h => simp [hup] at h

/-- A quote that is not closed begins an argument like any other character. -/
theorem head?_argumentsOf_of_open (hquote : isQuote quote = true) (hs : quote ∉ s) :
    ∃ arg, (argumentsOf (quote :: s)).head? = some (quote :: arg) := by
  have hup : quotedArgument? quote s = none := by
    rw [quotedArgument?, if_pos hquote, upTo_eq_none_iff.mpr hs]
  rw [argumentsOf, if_neg (by simp [isSeparator_of_isQuote hquote])]
  split
  next h => simp [hup] at h
  next => exact ⟨_, rfl⟩

/-! ### Helpers with a quoted argument -/

/-- The text of a stage that calls a helper with one argument in quotes. -/
def quotedStage (name : String) (quote : Char) (t : String) : String :=
  name ++ ":" ++ marked quote t

theorem toList_quotedStage (name : String) (quote : Char) (t : String) :
    (quotedStage name quote t).toList = name.toList ++ ':' :: quote :: (t.toList ++ [quote]) := by
  simp [quotedStage, marked]

/-- Where no pipe parts it, a stage with a quoted argument is read as it is written. -/
theorem callOf_quoted (hname : ':' ∉ name) (hquote : isQuote quote = true) (ht : quote ∉ t) :
    callOf (name ++ ':' :: quote :: (t ++ [quote]))
      = ⟨String.ofList (trimChars name), [String.ofList t]⟩ := by
  rw [callOf_append_colon hname, argumentsOf_quoted hquote ht]
  simp [argumentsOf]

/-- A stage whose quote is not closed does not have the quoted text for an argument. -/
theorem callOf_ne_of_open (hname : ':' ∉ name) (hs : quote ∉ s) (ht : quote ∉ t)
    (hquote : isQuote quote = true) (helper : String) :
    callOf (name ++ ':' :: quote :: s) ≠ ⟨helper, [String.ofList t]⟩ := by
  obtain ⟨arg, harg⟩ := head?_argumentsOf_of_open hquote hs
  intro h
  rw [callOf_append_colon hname, Call.mk.injEq] at h
  have hhead := congrArg List.head? h.2
  rw [List.head?_map, harg] at hhead
  have htext : quote :: arg = t := String.ofList_inj.mp (Option.some.inj hhead)
  simp [← htext] at ht

/-- What has no pipe in front of one is the first call. -/
theorem head?_calls_of_append_pipe {text : String} (h : text.toList = s ++ '|' :: more)
    (hs : '|' ∉ s) : (calls text).head? = some (callOf s) := by
  rw [calls_eq_map_pieces, h, pieces_append_cons, pieces_of_not_mem hs]
  rfl

/-- A stage with a quoted text, in front of a pipe or at the end, is a helper with that text as
its one argument exactly when the text has no pipe. -/
theorem head?_calls_quoted_iff {name t back : String} (hpipe : '|' ∉ name.toList)
    (hcolon : ':' ∉ name.toList) (htrim : Text.trim name = name) (hquote : isQuote quote = true)
    (ht : quote ∉ t.toList) (hback : back = "" ∨ ∃ n more, back = spaces n ++ "|" ++ more) :
    (calls (quotedStage name quote t ++ back)).head? = some ⟨name, [t]⟩ ↔ '|' ∉ t.toList := by
  have hnpipe : quote ≠ '|' := (ne_of_isQuote hquote).2.1
  constructor
  · intro h hmem
    -- The first pipe of the text ends the stage, and the quote is still open there.
    obtain ⟨before, after, hsplit, hbefore⟩ := List.eq_append_cons_of_mem hmem
    have htext : (quotedStage name quote t ++ back).toList
        = (name.toList ++ ':' :: quote :: before) ++ '|' :: (after ++ quote :: back.toList) := by
      simp [toList_quotedStage, hsplit]
    rw [head?_calls_of_append_pipe htext (by simp [hpipe, hbefore, hnpipe.symm])] at h
    have hopen : quote ∉ before := fun hquote => ht (hsplit ▸ List.mem_append_left _ hquote)
    have hne := callOf_ne_of_open hcolon hopen ht hquote name
    rw [String.ofList_toList] at hne
    exact hne (Option.some.inj h)
  · intro hmem
    have hstage : calls (quotedStage name quote t) = [⟨name, [t]⟩] := by
      have hname : String.ofList (trimChars name.toList) = name := htrim
      rw [calls_of_not_mem (by simp [toList_quotedStage, hpipe, hmem, hnpipe.symm]),
        toList_quotedStage, callOf_quoted hcolon hquote ht, hname, String.ofList_toList]
    rcases hback with rfl | ⟨n, more, rfl⟩
    · rw [String.append_empty, hstage]
      rfl
    · rw [← String.append_assoc, ← String.append_assoc, calls_append_pipe, calls_append_spaces,
        hstage]
      rfl

/-- The call behind the pipes of a front is a helper with a quoted text as its one
argument exactly when the text has no pipe, whatever spaces there are beside the pipes. -/
theorem getElem?_calls_quoted_iff (front : String) (before after : Nat) {name t back : String}
    (hpipe : '|' ∉ name.toList) (hcolon : ':' ∉ name.toList) (htrim : Text.trim name = name)
    (hquote : isQuote quote = true) (ht : quote ∉ t.toList)
    (hback : back = "" ∨ ∃ n more, back = spaces n ++ "|" ++ more) :
    (calls (front ++ spaces before ++ "|" ++ spaces after ++ quotedStage name quote t ++ back))[
        front.toList.count '|' + 1]? = some ⟨name, [t]⟩
      ↔ '|' ∉ t.toList := by
  rw [← head?_calls_quoted_iff hpipe hcolon htrim hquote ht hback, String.append_assoc,
    calls_append_spaced_pipe, ← length_calls, List.getElem?_append_right (Nat.le_refl _),
    Nat.sub_self, List.head?_eq_getElem?]

/-! ### Literals -/

/-- Nothing is trimmed from a text between two marks that are no blanks. -/
theorem trimChars_marked {c : Char} (hc : isBlank c = false) (t : List Char) :
    trimChars (c :: (t ++ [c])) = c :: (t ++ [c]) := by
  simp [trimChars, trimStart, trimEnd, hc]

/-- A text in single quotes with neither a pipe nor a colon is a literal, and nothing else. -/
theorem stages_quoted {t : String} (hne : t ≠ "") (hline : '\n' ∉ t.toList)
    (hpipe : '|' ∉ t.toList) (hcolon : ':' ∉ t.toList) :
    Stage.ofCalls (calls (marked '\'' t)) = [.literal (.string t)] := by
  have hmarked : (marked '\'' t).toList = '\'' :: (t.toList ++ ['\'']) := by simp [marked]
  have hliteral : literal? (marked '\'' t) = some t :=
    wrapped_toList_eq_some_iff.mpr ⟨rfl, hne, hline⟩
  have htrim : String.ofList (trimChars (marked '\'' t).toList) = marked '\'' t := by
    rw [hmarked, trimChars_marked (by decide), ← hmarked, String.ofList_toList]
  rw [calls_of_not_mem (by simp [hmarked, hpipe]), callOf_of_not_mem (by simp [hmarked, hcolon]),
    htrim]
  simp [Stage.ofCalls, Stage.ofFirst, hliteral]

/-- A pipe makes two stages at least. -/
theorem stages_quoted_ne {t : String} (hpipe : '|' ∈ t.toList) (stage : Stage) :
    Stage.ofCalls (calls (marked '\'' t)) ≠ [stage] := by
  intro h
  have hcount : 0 < (marked '\'' t).toList.count '|' :=
    List.count_pos_iff.mpr (by simp [marked, hpipe])
  have hlength := congrArg List.length h
  rw [Stage.length_ofCalls, length_calls, List.length_singleton] at hlength
  omega

/-! ### Both -/

/-- What quotes do for a text. -/
structure Protects (t : String) : Prop where
  /-- A leaf that is a text in single quotes is that literal when the text has neither a pipe
  nor a colon, and it is not with a pipe. -/
  literal : t ≠ "" → '\n' ∉ t.toList → '\'' ∉ t.toList → ∀ path,
    ∃ b, Binding.ofLeaf? (marked backtick (marked '\'' t)) path = some b
      ∧ ('|' ∉ t.toList → ':' ∉ t.toList → b.stages = [.literal (.string t)])
      ∧ ('|' ∈ t.toList → b.stages ≠ [.literal (.string t)])
  /-- Such a leaf gives the text for all data, and the text stands in its place in
  everything that is rendered. -/
  rendered : t ≠ "" → '\n' ∉ t.toList → '\'' ∉ t.toList → '|' ∉ t.toList → ':' ∉ t.toList →
    ∀ (e : Engine) (document options data : Json) (path : Path), document.WellFormed → path ≠ [] →
      document.at? path = some (.string (marked backtick (marked '\'' t))) →
      (∃ b ∈ (e.template document options).bindings, b.path = path
        ∧ (e.template document options).chain data b = .ok (.string t))
      ∧ ∀ doc, ((e.template document options).render data).result = .ok doc →
          doc.at? path = some (.string t)
  /-- Behind a helper and a colon a text in quotes is the one argument, unless the text
  has a pipe; there may be stages in front and behind, with any spaces beside the pipes. -/
  argument : ∀ (front name back : String) (before after : Nat) (quote : Char),
    isQuote quote = true → quote ∉ t.toList → '|' ∉ name.toList → ':' ∉ name.toList →
    Text.trim name = name → (back = "" ∨ ∃ n more, back = spaces n ++ "|" ++ more) →
      ((Stage.ofCalls (calls (front ++ spaces before ++ "|" ++ spaces after
          ++ quotedStage name quote t ++ back)))[front.toList.count '|' + 1]?
            = some (.call name [t])
        ↔ '|' ∉ t.toList)

theorem ofLeaf?_quoted {t : String} (hline : '\n' ∉ t.toList) (path : Path) :
    Binding.ofLeaf? (marked backtick (marked '\'' t)) path
      = some ⟨path, marked '\'' t, Stage.ofCalls (calls (marked '\'' t))⟩ := by
  refine Binding.ofLeaf?_eq_some_iff.mpr ⟨rfl, rfl, ?_, ?_, rfl⟩
  · intro hempty
    have := congrArg String.toList hempty
    simp [marked] at this
  · simp [marked, hline]

/-- Quotes protect a text from everything but the separators that are looked for
first. -/
theorem quoting_protects (t : String) : Protects t := by
  constructor
  · intro hne hline hquote path
    exact ⟨_, ofLeaf?_quoted hline path, stages_quoted hne hline,
      fun hpipe => stages_quoted_ne hpipe _⟩
  · intro hne hline hquote hpipe hcolon e document options data path hwf hpath hat
    have hstages := stages_quoted hne hline hpipe hcolon
    have hleaf := ofLeaf?_quoted hline path
    rw [hstages] at hleaf
    generalize hb : (⟨path, marked '\'' t, [.literal (.string t)]⟩ : Binding) = b at hleaf
    obtain rfl : b.path = path := by rw [← hb]
    have hmem : b ∈ Binding.ofTemplate document :=
      (Binding.mem_ofTemplate_iff hwf).mpr ⟨hpath, _, hat, hleaf⟩
    have hchain : (e.template document options).chain data b = .ok (.string t) := by
      have hinitial : b.initial? data = some (.string t) := by rw [← hb]; rfl
      rw [Template.chain, Binding.result_evaluate _ hinitial, ← hb, Binding.runFrom_of_le (by simp)]
      rfl
    refine ⟨⟨b, hmem, rfl, hchain⟩, ?_⟩
    intro doc hdoc
    have hrender := (Template.render_substitutes e document options data hwf).1
    rw [hdoc] at hrender
    obtain ⟨value, hvalue, hread⟩ := Template.at?_of_substitutes hwf hrender hmem
    rw [hread, Except.ok.inj (hvalue.symm.trans hchain)]
  · intro front name back before after quote hquote ht hpipe hcolon htrim hback
    have hcalls :=
      getElem?_calls_quoted_iff front before after hpipe hcolon htrim hquote ht hback
    rw [Stage.getElem?_ofCalls, ← hcalls, Option.map_eq_some_iff]
    constructor
    · rintro ⟨⟨helper, args⟩, hcall, hstage⟩
      obtain ⟨rfl, rfl⟩ : helper = name ∧ args = [t] := by simpa [Stage.ofLater] using hstage
      exact hcall
    · intro hcall
      exact ⟨_, hcall, rfl⟩

/-- A comma and a space are protected, in a literal and in an argument; no spaces are needed
beside the pipes. -/
theorem protects_comma :
    (∃ b, Binding.ofLeaf? "\x60'a, b'\x60" [.name "v"] = some b
      ∧ b.stages = [.literal (.string "a, b")])
    ∧ (Stage.ofCalls (calls "x|f:\"a, b\"  |g"))[1]? = some (.call "f" ["a, b"]) := by
  have hprotects := quoting_protects "a, b"
  obtain ⟨b, hleaf, hstages, -⟩ := hprotects.literal (by decide) (by decide) (by decide) [.name "v"]
  refine ⟨⟨b, hleaf, hstages (by decide) (by decide)⟩, ?_⟩
  exact (hprotects.argument "x" "f" "  |g" 0 0 '"' rfl (by decide) (by decide) (by decide)
    (by decide) (.inr ⟨2, "g", rfl⟩)).mpr (by decide)

/-- A pipe is not: it ends a stage in quotes, the first one as well as a later one. -/
theorem separators_not_protected :
    ¬ (∀ (t : String) (path : Path), t ≠ "" → '\n' ∉ t.toList → '\'' ∉ t.toList →
        ∃ b, Binding.ofLeaf? (marked backtick (marked '\'' t)) path = some b
          ∧ b.stages = [.literal (.string t)])
    ∧ ¬ (∀ (name t : String) (quote : Char), isQuote quote = true → quote ∉ t.toList →
        '\n' ∉ t.toList → '|' ∉ name.toList → ':' ∉ name.toList → Text.trim name = name →
        (Stage.ofCalls (calls ("x | " ++ quotedStage name quote t)))[1]? = some (.call name [t])) := by
  constructor
  · intro h
    obtain ⟨b, hleaf, hstages⟩ := h "a|b" [.name "v"] (by decide) (by decide) (by decide)
    have hcut : Binding.ofLeaf? (marked backtick (marked '\'' "a|b")) [.name "v"]
        = some ⟨[.name "v"], "'a|b'", [.data ⟨["'a"]⟩, .call "b'" []]⟩ := by cbv
    obtain rfl := Option.some.inj (hcut.symm.trans hleaf)
    simp at hstages
  · intro h
    have hcall := h "f" "a|b" '\'' rfl (by decide) (by decide) (by decide) (by decide) (by decide)
    have hcut : Stage.ofCalls (calls ("x | " ++ quotedStage "f" '\'' "a|b"))
        = [.data ⟨["x"]⟩, .call "f" ["'a"], .call "b'" []] := by cbv
    simp [hcut] at hcall

end Pipeline

end DocTemplate
