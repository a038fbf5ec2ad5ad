/-
Pipelines as they are written.

A call is written as its name and, if it has arguments, a colon and the arguments with commas
between them.  An argument that is a run may be written as it is; in quotes it may be anything
without that quote, also nothing.  Calls are written one after the other with a pipe between two
of them and spaces around the pipe.  There are many ways to write one pipeline, and every one of
them is read as the calls that were written.

* `Pipeline.SpellsArgument`, `Pipeline.SpellsCall`, `Pipeline.Spells` — the ways to write an
  argument, a call and a pipeline;
* `Pipeline.argumentsOf_of_spells` — arguments with commas between them are read back;
* `Pipeline.callOf_of_spells` — so is a call;
* `Pipeline.calls_of_spells` — so is a pipeline.
-/
import DocTemplate.Proofs.Grammar
import DocTemplate.Proofs.Segments

namespace DocTemplate

open DocTemplate.Text

/-- A call that can stand in a pipeline: what ends a name is not in the name, and what ends a
call is in no argument. -/
structure Call.Writable (call : Call) : Prop where
  /-- There are no blanks at the ends of the name. -/
  trimmed : Text.trim call.name = call.name
  name_pipe : '|' ∉ call.name.toList
  name_colon : ':' ∉ call.name.toList
  args_pipe : ∀ arg ∈ call.args, '|' ∉ arg.toList

namespace Pipeline

/-- The ways to write an argument. -/
inductive SpellsArgument : String → String → Prop
  /-- As it is, when it is a run that no quote begins. -/
  | bare {arg : String} : arg ≠ "" → (∀ c ∈ arg.toList, isSeparator c = false) →
      (∀ c, arg.toList.head? = some c → isQuote c = false) → SpellsArgument arg arg
  /-- In quotes that it does not hold. -/
  | quoted {arg : String} {quote : Char} : isQuote quote = true → quote ∉ arg.toList →
      SpellsArgument arg (marked quote arg)

/-- The ways to write a call. -/
inductive SpellsCall : Call → String → Prop
  | name (name : String) : SpellsCall ⟨name, []⟩ name
  | arguments {name : String} {args texts : List String} : args ≠ [] →
      List.Forall₂ SpellsArgument args texts →
      SpellsCall ⟨name, args⟩ (name ++ ":" ++ ",".intercalate texts)

/-- The ways to write a pipeline. -/
inductive Spells : List Call → String → Prop
  | last {call : Call} {text : String} : SpellsCall call text → Spells [call] text
  | pipe {call : Call} {calls : List Call} {text rest : String} (before after : Nat) :
      SpellsCall call text → Spells calls rest →
      Spells (call :: calls) (text ++ spaces before ++ "|" ++ spaces after ++ rest)

variable {arg text : String} {args texts : List String} {call : Call} {rest : List Char}

/-! ### Arguments -/

/-- A written argument is the first lexeme in front of a separator. -/
theorem argumentsOf_append_of_spells (h : SpellsArgument arg text)
    (hrest : ∀ c, rest.head? = some c → isSeparator c = true) :
    argumentsOf (text.toList ++ rest) = arg.toList :: argumentsOf rest := by
  cases h with
  | bare hne hrun hquote =>
    have hfits : (Lexeme.run arg.toList).Fits rest := by
      refine ⟨by simpa using hne, hrun, hrest, ?_⟩
      intro quote hhead hisQuote
      simp [hquote quote hhead] at hisQuote
    exact argumentsOf_of_lexeme? (lexeme?_eq_some_iff.mpr ⟨rfl, hfits⟩)
  | @quoted quote hquote harg =>
    have htext : (marked quote arg).toList ++ rest
        = (Lexeme.quoted quote arg.toList).text ++ rest := by
      simp [marked, Lexeme.text]
    exact argumentsOf_of_lexeme? (lexeme?_eq_some_iff.mpr ⟨htext, hquote, harg⟩)

/-- Written arguments with commas between them are read back. -/
theorem argumentsOf_of_spells (h : List.Forall₂ SpellsArgument args texts) :
    argumentsOf (joined ',' (texts.map String.toList)) = args.map String.toList := by
  induction h with
  | nil => simp [joined, argumentsOf]
  | @cons arg text args texts harg hargs ih =>
    cases hargs with
    | nil =>
      have hread : argumentsOf (text.toList ++ []) = arg.toList :: argumentsOf [] :=
        argumentsOf_append_of_spells harg (by simp)
      simpa [joined, argumentsOf] using hread
    | cons =>
      rw [List.map_cons, List.map_cons, joined,
        argumentsOf_append_of_spells harg (by simp [isSeparator]), argumentsOf_separator_cons rfl,
        ← List.map_cons, ih]
      rfl

/-! ### Calls -/

/-- Arguments without pipes are written without pipes. -/
theorem pipe_not_mem_of_spellsArgument (h : List.Forall₂ SpellsArgument args texts)
    (hargs : ∀ arg ∈ args, '|' ∉ arg.toList) : ∀ text ∈ texts, '|' ∉ text.toList := by
  induction h with
  | nil => simp
  | @cons arg text args texts harg _ ih =>
    obtain ⟨hpipe, hothers⟩ := List.forall_mem_cons.mp hargs
    refine List.forall_mem_cons.mpr ⟨?_, ih hothers⟩
    cases harg with
    | bare => exact hpipe
    | quoted hquote _ => simp [marked, hpipe, (ne_of_isQuote hquote).2.1.symm]

/-- The text of a call with its arguments, as characters. -/
theorem toList_call (name : String) (texts : List String) :
    (name ++ ":" ++ ",".intercalate texts).toList
      = name.toList ++ ':' :: joined ',' (texts.map String.toList) := by
  simp [String.toList_intercalate, joined_eq_intercalate]

theorem pipe_not_mem_of_spellsCall (h : SpellsCall call text) (hcall : call.Writable) :
    '|' ∉ text.toList := by
  cases h with
  | name => exact hcall.name_pipe
  | @arguments name args texts _ hargs =>
    have htexts : ∀ part ∈ texts.map String.toList, '|' ∉ part := by
      intro part hpart
      obtain ⟨text, htext, rfl⟩ := List.mem_map.mp hpart
      exact pipe_not_mem_of_spellsArgument hargs hcall.args_pipe text htext
    rw [toList_call]
    simp [hcall.name_pipe, not_mem_joined (show '|' ≠ ',' by decide) htexts]

/-- A written call is read back. -/
theorem callOf_of_spells (h : SpellsCall call text) (hcall : call.Writable) :
    callOf text.toList = call := by
  have hname : String.ofList (trimChars call.name.toList) = call.name := hcall.trimmed
  cases h with
  | name => rw [callOf_of_not_mem hcall.name_colon, hname]
  | @arguments name args texts _ hargs =>
    rw [toList_call, callOf_append_colon hcall.name_colon, hname, argumentsOf_of_spells hargs]
    simp

/-! ### Pipelines -/

/-- However a pipeline is written, it is read as the calls that were written. -/
theorem calls_of_spells (calls : List Call) (text : String) (h : Spells calls text)
    (hcalls : ∀ call ∈ calls, call.Writable) : Pipeline.calls text = calls := by
  have hone {call : Call} {text : String} (h : SpellsCall call text) (hcall : call.Writable) :
      Pipeline.calls text = [call] := by
    rw [calls_of_not_mem (pipe_not_mem_of_spellsCall h hcall), callOf_of_spells h hcall]
  induction h with
  | last hcall => exact hone hcall (hcalls _ (by simp))
  | pipe before after hcall _ ih =>
    rw [calls_append_spaced_pipe, hone hcall (hcalls _ (by simp)),
      ih fun call hmem => hcalls call (List.mem_cons_of_mem _ hmem)]
    rfl

/-- Calls with separators, quotes of either kind, colons and nothing in their arguments, one of
them without a name. -/
def spelledCalls : List Call :=
  [⟨"a.b", []⟩, ⟨"", ["x, y", "", "it's", "%H:%M"]⟩, ⟨"to up", ["\""]⟩]

theorem spells_spelledCalls :
    Spells spelledCalls "a.b  |:\"x, y\",'',\"it's\",%H:%M | to up:'\"'" := by
  have hfirst : SpellsCall ⟨"a.b", []⟩ "a.b" := .name _
  have hsecond : SpellsCall ⟨"", ["x, y", "", "it's", "%H:%M"]⟩
      ("" ++ ":" ++ ",".intercalate
        [marked '"' "x, y", marked '\'' "", marked '"' "it's", "%H:%M"]) := by
    refine .arguments (by simp) (.cons ?_ (.cons ?_ (.cons ?_ (.cons ?_ .nil))))
    · exact .quoted rfl (by decide)
    · exact .quoted rfl (by decide)
    · exact .quoted rfl (by decide)
    · exact .bare (by decide) (by simp [isSeparator]) (by simp [isQuote])
  have hthird : SpellsCall ⟨"to up", ["\""]⟩
      ("to up" ++ ":" ++ ",".intercalate [marked '\'' "\""]) :=
    .arguments (by simp) (.cons (.quoted rfl (by decide)) .nil)
  exact .pipe 2 0 hfirst (.pipe 1 1 hsecond (.last hthird))

theorem calls_of_spells_spelledCalls :
    Spells spelledCalls "a.b  |:\"x, y\",'',\"it's\",%H:%M | to up:'\"'"
    ∧ (∀ call ∈ spelledCalls, call.Writable)
    ∧ calls "a.b  |:\"x, y\",'',\"it's\",%H:%M | to up:'\"'" = spelledCalls := by
  have hwritable : ∀ call ∈ spelledCalls, call.Writable := by
    simp only [spelledCalls, List.forall_mem_cons, List.not_mem_nil, false_imp_iff, implies_true,
      and_true]
    exact ⟨⟨by decide, by simp, by simp, by simp⟩, ⟨by decide, by simp, by simp, by simp⟩,
      ⟨by decide, by simp, by simp, by simp⟩⟩
  exact ⟨spells_spelledCalls, hwritable, calls_of_spells _ _ spells_spelledCalls hwritable⟩

end Pipeline

end DocTemplate
