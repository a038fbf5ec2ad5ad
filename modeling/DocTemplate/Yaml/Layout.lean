/-
From the text of a YAML document to its tokens.

A block collection is told by its column: it begins with the first dash or key
in a column further right than the collections around it, and ends before the
first token further left.

A key has no mark of its own; only the colon behind it tells.  So every token
that may be a key is remembered until that is decided, one for each open flow
collection and one outside of them, and the token for the key is put in front
of it afterwards.  A key stands on one line and is at most `maxKey` bytes long,
blanks behind it included.  In a block mapping a token in the column of the keys
must be one.
-/
import DocTemplate.Yaml.Lexeme
import DocTemplate.Yaml.Token

namespace DocTemplate.Yaml

/-- A token that may turn out to be a key. -/
structure Candidate where
  /-- The number of tokens before it. -/
  position : Nat
  mark : Mark
  /-- Whether it must be a key. -/
  required : Bool

/-- The greatest distance in bytes from the start of a key to its colon. -/
def maxKey : Nat := 1024

/-- Whether a colon at a mark is too far away from a candidate. -/
def Candidate.isStale (k : Candidate) (m : Mark) : Bool :=
  k.mark.line < m.line || k.mark.offset + maxKey < m.offset

/-- A text that is read up to a cursor. -/
structure Layout where
  cursor : Cursor
  tokens : Array Token
  /-- The least column at which parts of the innermost block collection's parts
  may begin: one more than its own column, zero outside of all. -/
  base : Nat
  /-- The same for the collections around it. -/
  outerBases : List Nat
  /-- The last candidate for a key. -/
  candidate : Option Candidate
  /-- The same outside of the flow collections that are open, innermost first. -/
  outerCandidates : List (Option Candidate)
  /-- Whether a block collection or a key may begin here. -/
  mayBegin : Bool

namespace Layout

/-- The start of a text. -/
def start (cs : List Char) : Layout := ⟨.start cs, #[], 0, [], none, [], true⟩

/-- Whether a flow collection is open. -/
def inFlow (l : Layout) : Bool := !l.outerCandidates.isEmpty

/-- One more token, past some characters. -/
def emit (l : Layout) (length : Nat) (t : Token) : Layout :=
  { l with cursor := l.cursor.forward length, tokens := l.tokens.push t }

/-! ### Candidates -/

/-- A candidate at a mark behind it: a stale one is none, unless it must be a
key. -/
def refresh? (m : Mark) : Option Candidate → Option (Option Candidate)
  | some k => if !k.isStale m then some (some k) else if k.required then none else some none
  | none => some none

/-- The layout without stale candidates. -/
def refreshed? (l : Layout) : Option Layout := do
  return { l with
    candidate := ← refresh? l.cursor.mark l.candidate
    outerCandidates := ← l.outerCandidates.mapM (refresh? l.cursor.mark) }

/-- The layout when the last candidate turns out to be no key. -/
def withoutCandidate? (l : Layout) : Option Layout :=
  if l.candidate.any (·.required) then none else some { l with candidate := none }

/-- The layout with the token that begins here as a candidate, if it may be one. -/
def withCandidate? (l : Layout) : Option Layout :=
  if l.mayBegin then do
    let l ← l.withoutCandidate?
    let required := !l.inFlow && l.base = l.cursor.mark.column + 1
    return { l with candidate := some ⟨l.tokens.size, l.cursor.mark, required⟩ }
  else some l

/-! ### Block collections -/

/-- The layout with a block collection that begins in a column, its token put
behind some others; none begins in the column of one that is open. -/
def openBlock (l : Layout) (column position : Nat) (t : Token) : Layout :=
  if !l.inFlow && l.base ≤ column then
    { l with
      tokens := l.tokens.insertIdxIfInBounds position t
      base := column + 1
      outerBases := l.base :: l.outerBases }
  else l

/-- Block collections closed as long as their base is above a limit. -/
def closeFrom (limit : Nat) (tokens : Array Token) (base : Nat) :
    List Nat → Array Token × Nat × List Nat
  | [] => (tokens, base, [])
  | outer :: bases =>
    if limit < base then closeFrom limit (tokens.push .blockEnd) outer bases
    else (tokens, base, outer :: bases)

/-- The layout without the block collections whose base is above a limit; flow
collections keep them open. -/
def closeBlocks (l : Layout) (limit : Nat) : Layout :=
  if l.inFlow then l
  else
    let (tokens, base, outerBases) := closeFrom limit l.tokens l.base l.outerBases
    { l with tokens, base, outerBases }

/-! ### Tokens -/

/-- A line that separates documents. -/
def marker? (l : Layout) (t : Token) : Option Layout := do
  let l ← (l.closeBlocks 0).withoutCandidate?
  return { l with mayBegin := false }.emit 3 t

/-- The begin of a flow collection, which may be a key as a whole. -/
def openFlow? (l : Layout) (t : Token) : Option Layout := do
  let l ← l.withCandidate?
  return { l with
    candidate := none
    outerCandidates := l.candidate :: l.outerCandidates
    mayBegin := true }.emit 1 t

/-- The end of a flow collection. -/
def closeFlow? (l : Layout) (t : Token) : Option Layout := do
  let l ← l.withoutCandidate?
  let l := match l.outerCandidates with
    | k :: ks => { l with candidate := k, outerCandidates := ks }
    | [] => l
  return { l with mayBegin := false }.emit 1 t

/-- The comma of a flow collection. -/
def comma? (l : Layout) : Option Layout := do
  let l ← l.withoutCandidate?
  return { l with mayBegin := true }.emit 1 .comma

/-- The dash of an item. -/
def item? (l : Layout) : Option Layout := do
  if !l.inFlow && !l.mayBegin then none
  let l ← (l.openBlock l.cursor.mark.column l.tokens.size .blockSequence).withoutCandidate?
  return { l with mayBegin := true }.emit 1 .item

/-- The mark in front of a key. -/
def key? (l : Layout) : Option Layout := do
  if !l.inFlow && !l.mayBegin then none
  let l ← (l.openBlock l.cursor.mark.column l.tokens.size .blockMapping).withoutCandidate?
  return { l with mayBegin := !l.inFlow }.emit 1 .key

/-- The colon behind a key. -/
def value? (l : Layout) : Option Layout :=
  match l.candidate with
  | some k =>
    let l := { l with tokens := l.tokens.insertIdxIfInBounds k.position .key }
    let l := l.openBlock k.mark.column k.position .blockMapping
    some ({ l with candidate := none, mayBegin := false }.emit 1 .value)
  | none =>
    if !l.inFlow && !l.mayBegin then none
    else
      let l := l.openBlock l.cursor.mark.column l.tokens.size .blockMapping
      some ({ l with mayBegin := !l.inFlow }.emit 1 .value)

/-- A block of text. -/
def blockText? (l : Layout) (folds : Bool) : Option Layout := do
  let l ← l.withoutCandidate?
  let (text, cursor) ← l.cursor.blockText folds l.base
  return { l with cursor, tokens := l.tokens.push (.scalar false text), mayBegin := true }

/-- A quoted scalar. -/
def quoted? (l : Layout) (quote : Char) : Option Layout := do
  let l ← l.withCandidate?
  let (text, cursor) ← l.cursor.quoted quote
  return { l with cursor, tokens := l.tokens.push (.scalar false text), mayBegin := false }

/-- A plain scalar; behind it a line may have ended already. -/
def plain? (l : Layout) : Option Layout := do
  let l ← l.withCandidate?
  let (text, broken, cursor) ← l.cursor.plain l.inFlow l.base
  return { l with cursor, tokens := l.tokens.push (.scalar true text), mayBegin := broken }

/-- The token that begins here. -/
def token? (l : Layout) : Option Layout :=
  match l.cursor.rest with
  | [] => none
  | c :: cs =>
    if l.cursor.atMarker '-' then l.marker? .documentStart
    else if l.cursor.atMarker '.' then l.marker? .documentEnd
    else if c = '[' then l.openFlow? .openSequence
    else if c = '\x7b' then l.openFlow? .openMapping
    else if c = ']' then l.closeFlow? .closeSequence
    else if c = '\x7d' then l.closeFlow? .closeMapping
    else if c = ',' then l.comma?
    else if c = '-' && endsWord cs then l.item?
    else if c = '?' && (l.inFlow || endsWord cs) then l.key?
    else if c = ':' && (l.inFlow || endsWord cs) then l.value?
    else if (c = '|' || c = '>') && !l.inFlow then l.blockText? (c = '>')
    else if c = '"' || c = '\'' then l.quoted? c
    else if Cursor.beginsPlain l.inFlow c cs then l.plain?
    else none

/-- The tokens of the rest of a text; every token takes a character, so a bound
of the text's length is never met. -/
def run? : Nat → Layout → Option (Array Token)
  | 0, _ => none
  | bound + 1, l => do
    let (mayBegin, cursor) := l.cursor.skip l.inFlow l.mayBegin
    let l ← { l with cursor, mayBegin }.refreshed?
    if cursor.rest.isEmpty then return (← (l.closeBlocks 0).withoutCandidate?).tokens
    run? bound (← (l.closeBlocks (cursor.mark.column + 1)).token?)

end Layout

/-- The tokens of a text. -/
def Token.ofText? (cs : List Char) : Option (List Token) :=
  (Layout.run? (cs.length + 1) (.start cs)).map Array.toList

end DocTemplate.Yaml
