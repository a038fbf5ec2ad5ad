/-
Going along a YAML text.

A cursor is what is left of the text with the mark of its first character, a
line and two places on it.  Lines end at a line feed or at one of the separators
`U+2028` and `U+2029`; other line ends are written as line feeds beforehand.

* `Cursor.skip` — past what may stand between tokens;
* `Gap` — white space inside a scalar and what it stands for there.
-/
namespace DocTemplate.Yaml

/-- Whether a character separates words inside a line. -/
def isGap (c : Char) : Bool := c = ' ' || c = '\t'

/-- Whether a character ends a line. -/
def isBreak (c : Char) : Bool := c = '\n' || c = '\u2028' || c = '\u2029'

/-- Whether a character is white space. -/
def isSpace (c : Char) : Bool := isGap c || isBreak c

/-- Whether a word ends here. -/
def endsWord : List Char → Bool
  | [] => true
  | c :: _ => isSpace c

/-- The characters that structure flow collections. -/
def isFlowMark (c : Char) : Bool :=
  c = ',' || c = '[' || c = ']' || c = '\x7b' || c = '\x7d'

/-- The place of a character, all parts counted from zero. -/
structure Mark where
  line : Nat
  column : Nat
  /-- The bytes in front of it on its line. -/
  offset : Nat
  deriving DecidableEq, Repr

/-- The mark behind a character. -/
def Mark.past (m : Mark) (c : Char) : Mark :=
  if isBreak c then ⟨m.line + 1, 0, 0⟩ else ⟨m.line, m.column + 1, m.offset + c.utf8Size⟩

/-- The mark behind some characters of one byte on the same line. -/
def Mark.along (m : Mark) (n : Nat) : Mark := ⟨m.line, m.column + n, m.offset + n⟩

/-- A place in a text. -/
structure Cursor where
  rest : List Char
  mark : Mark

namespace Cursor

/-- The start of a text. -/
def start (cs : List Char) : Cursor := ⟨cs, 0, 0, 0⟩

/-- Some characters further. -/
def forward (cur : Cursor) (n : Nat) : Cursor :=
  ⟨cur.rest.drop n, (cur.rest.take n).foldl Mark.past cur.mark⟩

/-- Past the characters of the same line that have a property. -/
def pastLine (cur : Cursor) (p : Char → Bool) : Cursor :=
  cur.forward (cur.rest.takeWhile fun c => p c && !isBreak c).length

/-- Whether a line begins here with a word of three characters, alone. -/
def atMarker (cur : Cursor) (c : Char) : Bool :=
  cur.mark.column = 0 && [c, c, c].isPrefixOf cur.rest && endsWord (cur.rest.drop 3)

/-- Whether a line here separates documents. -/
def atAnyMarker (cur : Cursor) : Bool := cur.atMarker '-' || cur.atMarker '.'

/-- Past blanks, line ends and comments; `mayBegin` tells whether a block
collection or an implicit key may begin here, as one may on every new line
outside of flow collections. -/
def skipFrom (inFlow inComment mayBegin : Bool) (m : Mark) : List Char → Bool × Cursor
  | [] => (mayBegin, ⟨[], m⟩)
  | c :: cs =>
    if isBreak c then skipFrom inFlow false (mayBegin || !inFlow) (m.past c) cs
    else if inComment then skipFrom inFlow true mayBegin (m.past c) cs
    -- A tab may not indent a block collection.
    else if c = ' ' || (c = '\t' && (inFlow || !mayBegin)) then
      skipFrom inFlow false mayBegin (m.past c) cs
    else if c = '#' then skipFrom inFlow true mayBegin (m.past c) cs
    -- A byte order mark may stand at the start of every line and takes a column.
    else if c = '\ufeff' && m.column = 0 then skipFrom inFlow false mayBegin (m.past c) cs
    else (mayBegin, ⟨c :: cs, m⟩)

/-- Past blanks, line ends and comments, and whether a block collection or an
implicit key may begin there. -/
def skip (cur : Cursor) (inFlow mayBegin : Bool) : Bool × Cursor :=
  skipFrom inFlow false mayBegin cur.mark cur.rest

end Cursor

/-! ### White space inside scalars -/

/-- White space between two words of a scalar. -/
structure Gap where
  /-- The blanks, as long as no line has ended. -/
  blanks : List Char
  /-- Whether a line has ended. -/
  broken : Bool
  /-- The character that ended the first line, unless that was escaped. -/
  first : Option Char
  /-- The characters that ended empty lines. -/
  further : List Char

namespace Gap

/-- No white space. -/
def nothing : Gap := ⟨[], false, none, []⟩

/-- An escaped end of a line. -/
def escaped : Gap := ⟨[], true, none, []⟩

/-- One more character. -/
def add (g : Gap) (c : Char) : Gap :=
  if isBreak c then
    if g.broken then { g with further := g.further ++ [c] } else ⟨[], true, some c, []⟩
  else if g.broken then g
  else { g with blanks := g.blanks ++ [c] }

/-- The characters that white space stands for: blanks for themselves, a single
line feed for a space, the first of several line feeds for nothing. -/
def folded (g : Gap) : List Char :=
  if !g.broken then g.blanks
  else
    match g.first with
    | some '\n' => if g.further.isEmpty then [' '] else g.further
    | some c => c :: g.further
    | none => g.further

end Gap

end DocTemplate.Yaml
