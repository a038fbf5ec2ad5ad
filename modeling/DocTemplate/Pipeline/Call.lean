/-
Pipelines as texts.

A pipeline is a row of calls with `|` between them; a call is a name, then
after a colon its arguments.  Main definitions:

* `wrapped` — what a text holds between two marks at its ends, and `marked`, which
  puts them there;
* `Pipeline.expression?` — the pipeline a text consists of, in backticks;
* `Pipeline.literal?` — the text that a first call stands for, in single quotes;
* `Pipeline.arguments` — arguments: closed quotes or runs without separators;
* `Pipeline.calls` — the calls of a pipeline.
-/
import DocTemplate.Json.Basic
import DocTemplate.Text.Blank
import DocTemplate.Text.Pieces
import DocTemplate.Text.Scan

namespace DocTemplate

open DocTemplate.Text

/-- A call as it is written in a pipeline. -/
structure Call where
  name : String
  args : List String
  deriving DecidableEq, Repr

namespace Call

/-- A call as a document. -/
def toJson (call : Call) : Json :=
  .objectOf [("name", .string call.name), ("args", .texts call.args)]

/-- The call with a name and arguments given as documents. -/
def ofParts? (name args : Json) : Option Call := do
  match args with
  | .array items => return ⟨← name.text?, ← items.mapM Json.text?⟩
  | _ => none

/-- The call that a document stands for: an object, or its name and arguments
as a list. -/
def ofJson? : Json → Option Call
  | .array [name, args] => ofParts? name args
  | doc => do ofParts? (← doc.member? "name") (← doc.member? "args")

end Call

namespace Pipeline

/-- The mark around a pipeline. -/
def backtick : Char := '\x60'

/-- What a text of one line holds between a mark at its front and one at its
end; it may not be empty. -/
def wrapped (mark : Char) : List Char → Option (List Char)
  | [] => none
  | c :: cs =>
    let inner := cs.dropLast
    if c = mark ∧ cs.getLast? = some mark ∧ inner ≠ [] ∧ '\n' ∉ inner then some inner
    else none

/-- What a wrapped text holds stands between its marks. -/
theorem wrapped_eq_some_iff {mark : Char} {cs inner : List Char} :
    wrapped mark cs = some inner
      ↔ cs = mark :: (inner ++ [mark]) ∧ inner ≠ [] ∧ '\n' ∉ inner := by
  constructor
  · intro h
    cases cs with
    | nil => simp [wrapped] at h
    | cons c cs =>
      rw [wrapped] at h
      split at h
      next hc =>
        obtain ⟨rfl, hlast, hne, hline⟩ := hc
        obtain rfl := Option.some.inj h
        obtain ⟨init, rfl⟩ := List.getLast?_eq_some_iff.mp hlast
        simp_all
      next => simp at h
  · rintro ⟨rfl, hne, hline⟩
    simp [wrapped, hne, hline]

/-- A text between two marks. -/
def marked (mark : Char) (text : String) : String :=
  String.singleton mark ++ text ++ String.singleton mark

theorem wrapped_toList_eq_some_iff {mark : Char} {text inner : String} :
    (wrapped mark text.toList).map String.ofList = some inner
      ↔ text = marked mark inner ∧ inner ≠ "" ∧ '\n' ∉ inner.toList := by
  rw [Option.map_eq_some_iff]
  constructor
  · rintro ⟨cs, h, rfl⟩
    obtain ⟨htext, hne, hline⟩ := wrapped_eq_some_iff.mp h
    refine ⟨?_, by simpa using hne, by simpa using hline⟩
    rw [← String.toList_inj, htext]
    simp [marked]
  · rintro ⟨rfl, hne, hline⟩
    exact ⟨inner.toList, wrapped_eq_some_iff.mpr ⟨by simp [marked], by simpa using hne, hline⟩,
      by simp⟩

/-- The pipeline that a text consists of. -/
def expression? (text : String) : Option String :=
  (wrapped backtick text.toList).map String.ofList

/-- The text that a quoted name stands for. -/
def literal? (name : String) : Option String :=
  (wrapped '\'' name.toList).map String.ofList

/-! ### Arguments -/

/-- The characters between arguments. -/
def isSeparator (c : Char) : Bool := c = ' ' || c = '\t' || c = ','

/-- The characters that open a quoted argument. -/
def isQuote (c : Char) : Bool := c = '"' || c = '\''

/-- The quoted argument that begins with a character, when its quote is closed,
and the rest. -/
def quotedArgument? (c : Char) (cs : List Char) : Option (List Char × List Char) :=
  if isQuote c then upTo c cs else none

/-- The arguments in a text: separators between them are skipped, a quote that
is closed later holds one argument, anything else runs to the next separator. -/
def argumentsOf (cs : List Char) : List (List Char) :=
  match cs with
  | [] => []
  | c :: cs =>
    if isSeparator c then argumentsOf cs
    else
      match _h : quotedArgument? c cs with
      | some (arg, rest) => arg :: argumentsOf rest
      -- A quote that is not closed is a character like any other.
      | none => (c :: cs.takeWhile (! isSeparator ·)) :: argumentsOf (cs.dropWhile (! isSeparator ·))
termination_by cs.length
decreasing_by
  · simp
  · unfold quotedArgument? at _h
    split at _h
    · have := upTo_length _h
      simp only [List.length_cons]
      omega
    · simp at _h
  · have : (cs.dropWhile (! isSeparator ·)).length ≤ cs.length :=
      (List.dropWhile_sublist _).length_le
    simp only [List.length_cons]
    omega

/-- The arguments in a text. -/
def arguments (source : String) : List String := (argumentsOf source.toList).map String.ofList

/-! ### Calls -/

/-- Drop the spaces at the front. -/
def dropSpaces (cs : List Char) : List Char := cs.dropWhile (· = ' ')

/-- Drop the spaces at the back. -/
def dropSpacesEnd (cs : List Char) : List Char := (dropSpaces cs.reverse).reverse

/-- Drop the spaces beside the pipes between pieces: in front of every piece
but the first, whose turn `first` tells, and behind every piece but the last. -/
def dropBesidePipes (first : Bool) : List (List Char) → List (List Char)
  | [] => []
  | [p] => [if first then p else dropSpaces p]
  | p :: q :: ps =>
    dropSpacesEnd (if first then p else dropSpaces p) :: dropBesidePipes false (q :: ps)

/-- The pieces of a pipeline; the separator is a pipe with the spaces around it. -/
def cutAtPipes (cs : List Char) : List (List Char) := dropBesidePipes true (pieces '|' cs)

/-- The name and the argument text of a piece, which the first colon separates. -/
def nameAndRest (piece : List Char) : List Char × List Char :=
  (upTo ':' piece).getD (piece, [])

/-- The call that a piece writes. -/
def callOf (piece : List Char) : Call :=
  let (name, rest) := nameAndRest piece
  ⟨String.ofList (trimChars name), (argumentsOf rest).map String.ofList⟩

/-- The calls of a pipeline, at least one. -/
def calls (text : String) : List Call := (cutAtPipes text.toList).map callOf

end Pipeline

end DocTemplate
