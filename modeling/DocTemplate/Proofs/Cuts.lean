/-
How a pipeline is cut.

A pipeline is cut at its pipes, and a piece at its first colon, before anything looks at
quotes.  The spaces beside a pipe are dropped.

* `Pipeline.length_calls` — there is one call more than there are pipes;
* `Pipeline.callOf_append_colon` — what the first colon of a piece is for.
-/
import DocTemplate.Pipeline.Call

namespace DocTemplate.Pipeline

open DocTemplate.Text

variable {c : Char} {front back piece name : List Char}

/-! ### Spaces -/

/-- Spaces are dropped up to a character that is none. -/
theorem dropSpaces_append_cons (hc : c ≠ ' ') (front back : List Char) :
    dropSpaces (front ++ c :: back) = dropSpaces front ++ c :: back := by
  rw [dropSpaces, dropSpaces, List.dropWhile_append]
  split
  next h =>
    rw [List.isEmpty_iff.mp h, List.nil_append, List.dropWhile_cons_of_neg (by simpa using hc)]
  next h => rfl

theorem dropSpacesEnd_append_cons (hc : c ≠ ' ') (front back : List Char) :
    dropSpacesEnd (front ++ c :: back) = front ++ c :: dropSpacesEnd back := by
  have hreverse : (front ++ c :: back).reverse = back.reverse ++ c :: front.reverse := by simp
  rw [dropSpacesEnd, hreverse, dropSpaces_append_cons hc]
  simp [dropSpacesEnd]

theorem not_mem_dropSpaces (h : c ∉ front) : c ∉ dropSpaces front := by
  intro hc
  exact h ((List.dropWhile_sublist _).subset hc)

/-! ### Calls -/

/-- The first colon of a piece ends the name. -/
theorem callOf_append_colon (hname : ':' ∉ name) (rest : List Char) :
    callOf (name ++ ':' :: rest)
      = ⟨String.ofList (trimChars name), (argumentsOf rest).map String.ofList⟩ := by
  have hcolon : upTo ':' (name ++ ':' :: rest) = some (name, rest) :=
    upTo_eq_some_iff.mpr ⟨rfl, hname⟩
  rw [callOf, nameAndRest, hcolon]
  rfl

theorem callOf_of_not_mem (h : ':' ∉ piece) :
    callOf piece = ⟨String.ofList (trimChars piece), []⟩ := by
  rw [callOf, nameAndRest, upTo_eq_none_iff.mpr h]
  simp [argumentsOf]

theorem calls_of_not_mem {text : String} (hpipe : '|' ∉ text.toList) :
    calls text = [callOf text.toList] := by
  rw [calls, cutAtPipes, pieces_of_not_mem hpipe]
  rfl

theorem length_calls (text : String) : (calls text).length = text.toList.count '|' + 1 := by
  have hlength (first : Bool) (ps : List (List Char)) :
      (dropBesidePipes first ps).length = ps.length := by
    induction first, ps using dropBesidePipes.induct with
    | case1 => rfl
    | case2 => rfl
    | case3 first p q ps ih => simpa [dropBesidePipes] using ih
  rw [calls, List.length_map, cutAtPipes, hlength, length_pieces]

/-! ### Quotes -/

theorem isSeparator_of_isQuote (h : isQuote c = true) : isSeparator c = false := by
  simp only [isQuote, Bool.or_eq_true, decide_eq_true_eq] at h
  rcases h with rfl | rfl <;> rfl

theorem ne_of_isQuote (h : isQuote c = true) : c ≠ ' ' ∧ c ≠ '|' ∧ c ≠ ':' := by
  simp only [isQuote, Bool.or_eq_true, decide_eq_true_eq] at h
  rcases h with rfl | rfl <;> decide

end DocTemplate.Pipeline
