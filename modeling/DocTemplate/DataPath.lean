/-
Data paths such as `user.likes[0]` or `a["x y"].b`.

A data path is read once into its segments.  A part in brackets stands for a
point and the text inside: in double quotes, in single quotes, or bare up to
the next closing bracket, blanks just inside the brackets left out.  The
result is cut at the points; segments are trimmed and empty ones dropped.

`lookup` follows the segments, as keys in objects and as written-out indices
in arrays; `resolve` gives null where there is nothing.
-/
import DocTemplate.Json.Equality
import DocTemplate.Text.Blank
import DocTemplate.Text.Pieces
import DocTemplate.Text.Scan
import DocTemplate.Text.Word

namespace DocTemplate

open DocTemplate.Text

/-- A data path, cut into segments. -/
structure DataPath where
  segments : List String
  deriving DecidableEq, Repr

namespace DataPath

/-- What follows a closing bracket with at most blanks before it. -/
def pastBracket? (cs : List Char) : Option (List Char) :=
  match trimStart cs with
  | ']' :: rest => some rest
  | _ => none

/-- What stands behind an opening bracket when it begins with a quote: the text
up to the same quote, if only blanks lie between that and a closing bracket;
and the rest. -/
def quotedKey? (quote : Char) : List Char → Option (List Char × List Char)
  | [] => none
  | c :: cs =>
    if c = quote then
      (upTo quote cs).bind fun (key, rest) => (pastBracket? rest).map fun rest => (key, rest)
    else none

/-- What stands behind an opening bracket up to the next closing one, and the
rest. -/
def bareKey? (cs : List Char) : Option (List Char × List Char) :=
  (upTo ']' cs).map fun (key, rest) => (trimEnd key, rest)

/-- The text inside a bracket that was just opened, and what follows the
bracket; none when no bracket closes. -/
def bracketKey? (cs : List Char) : Option (List Char × List Char) :=
  let cs := trimStart cs
  (quotedKey? '"' cs).or ((quotedKey? '\'' cs).or (bareKey? cs))

theorem trimStart_length_le (cs : List Char) : (trimStart cs).length ≤ cs.length :=
  (List.dropWhile_sublist _).length_le

theorem pastBracket?_length {cs rest : List Char} (h : pastBracket? cs = some rest) :
    rest.length < cs.length := by
  unfold pastBracket? at h
  split at h
  next r htrim =>
    have hle := trimStart_length_le cs
    rw [htrim, Option.some.inj h] at hle
    exact hle
  next => simp at h

theorem quotedKey?_length {quote : Char} {cs key rest : List Char}
    (h : quotedKey? quote cs = some (key, rest)) : rest.length < cs.length := by
  unfold quotedKey? at h
  split at h
  · simp at h
  · split at h
    · obtain ⟨⟨k, r⟩, hup, h⟩ := Option.bind_eq_some_iff.mp h
      obtain ⟨r', hpast, h⟩ := Option.map_eq_some_iff.mp h
      simp only [Prod.mk.injEq] at h
      obtain ⟨rfl, rfl⟩ := h
      have h₁ := upTo_length hup
      have h₂ := pastBracket?_length hpast
      simp only [List.length_cons]
      omega
    · simp at h

theorem bracketKey?_length {cs key rest : List Char}
    (h : bracketKey? cs = some (key, rest)) : rest.length < cs.length := by
  have hle := trimStart_length_le cs
  simp only [bracketKey?, Option.or_eq_some_iff] at h
  rcases h with h | ⟨_, h | ⟨_, h⟩⟩
  · exact Nat.lt_of_lt_of_le (quotedKey?_length h) hle
  · exact Nat.lt_of_lt_of_le (quotedKey?_length h) hle
  · simp only [bareKey?, Option.map_eq_some_iff, Prod.exists, Prod.mk.injEq] at h
    obtain ⟨a, b, hup, _, rfl⟩ := h
    exact Nat.lt_of_lt_of_le (upTo_length hup) hle

/-- A data path with every part in brackets written behind a point instead. -/
def withoutBrackets (cs : List Char) : List Char :=
  match cs with
  | [] => []
  | c :: cs =>
    if c = '[' then
      match _h : bracketKey? cs with
      | some (key, rest) => '.' :: key ++ withoutBrackets rest
      -- A bracket that never closes stands for itself.
      | none => c :: withoutBrackets cs
    else c :: withoutBrackets cs
termination_by cs.length
decreasing_by
  · have := bracketKey?_length _h
    simp only [List.length_cons]
    omega
  · simp
  · simp

/-- The segments between points, trimmed, empty ones dropped. -/
def segmentsOf (cs : List Char) : List (List Char) :=
  ((pieces '.' cs).map trimChars).filter (! ·.isEmpty)

/-- Read a data path. -/
def parse (text : String) : DataPath :=
  ⟨(segmentsOf (withoutBrackets (trimChars text.toList))).map String.ofList⟩

/-- The part of a document that one segment leads to. -/
def step? (doc : Json) (segment : String) : Option Json :=
  match doc with
  | .object members => Entries.find? members segment
  | .array items => do items[← Word.read? segment]?
  | _ => none

/-- The part of a document that a list of segments leads to. -/
def follow : Json → List String → Option Json
  | doc, [] => some doc
  | doc, segment :: segments => do follow (← step? doc segment) segments

/-- The part of a document that a data path leads to; none for a path without
segments. -/
def lookup (p : DataPath) (doc : Json) : Option Json :=
  if p.segments.isEmpty then none else follow doc p.segments

/-- The part of a document that a data path leads to, null where there is none. -/
def resolve (p : DataPath) (doc : Json) : Json := (p.lookup doc).getD .null

end DataPath

end DocTemplate
