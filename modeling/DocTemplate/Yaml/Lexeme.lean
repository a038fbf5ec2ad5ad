/-
The scalars of a YAML text.

* `Cursor.plain` — a plain scalar, over several lines if need be;
* `Cursor.quoted` — a scalar in quotes of either kind, past both of them;
* `Cursor.blockText` — a literal or folded block behind its mark.
-/
import DocTemplate.Text.Word
import DocTemplate.Yaml.Cursor

namespace DocTemplate.Yaml.Cursor

open DocTemplate.Text

/-- Put characters in front of a scanned text. -/
def prepend {α : Type} (front : List Char) (r : Option (List Char × α)) : Option (List Char × α) :=
  r.map fun (cs, a) => (front ++ cs, a)

/-! ### Plain scalars -/

/-- Whether a plain scalar can begin with a character before others. -/
def beginsPlain (inFlow : Bool) (c : Char) (cs : List Char) : Bool :=
  if c = '-' then !endsWord cs
  else if c = '?' || c = ':' then !inFlow && !endsWord cs
  else !(isSpace c || isFlowMark c || "#&*!|>'\"%@\x60".toList.contains c)

/-- Whether a plain scalar ends before a character before others. -/
def endsPlain (inFlow : Bool) (c : Char) (cs : List Char) : Bool :=
  (c = ':' && endsWord cs) || (inFlow && isFlowMark c)

/-- Whether a colon stands directly before a mark of a flow collection or a
question mark. -/
def isLooseColon (inFlow : Bool) (c : Char) (cs : List Char) : Bool :=
  inFlow && c = ':' && cs.head?.any fun d => isFlowMark d || d = '?'

/-- The rest of a plain scalar behind a word (no gap) or behind white space, and
whether a line has ended behind its last word.  In a block it goes on only on
lines indented as far as `indent`. -/
def plainFrom (inFlow : Bool) (indent : Nat) (gap : Option Gap) (m : Mark) :
    List Char → Option (List Char × Bool × Cursor)
  | [] => some ([], gap.any (·.broken), ⟨[], m⟩)
  | c :: cs =>
    let broken := gap.any (·.broken)
    let stop := some ([], broken, ⟨c :: cs, m⟩)
    if isSpace c then
      if c = '\t' && broken && m.column < indent then none
      else plainFrom inFlow indent (some ((gap.getD .nothing).add c)) (m.past c) cs
    else if gap.isSome
        && (c = '#' || (!inFlow && m.column < indent) || atAnyMarker ⟨c :: cs, m⟩) then stop
    else if isLooseColon inFlow c cs then none
    else if endsPlain inFlow c cs then stop
    else prepend ((gap.map Gap.folded).getD [] ++ [c]) (plainFrom inFlow indent none (m.past c) cs)

/-- A plain scalar, and whether a line has ended behind it. -/
def plain (inFlow : Bool) (indent : Nat) (cur : Cursor) : Option (String × Bool × Cursor) :=
  (plainFrom inFlow indent none cur.mark cur.rest).map fun (cs, r) => (String.ofList cs, r)

/-! ### Quoted scalars -/

/-- The inside of a scalar in single quotes, where two quotes write one. -/
def single (g : Gap) (m : Mark) : List Char → Option (List Char × Cursor)
  | [] => none
  | '\'' :: '\'' :: cs =>
    prepend (g.folded ++ ['\'']) (single .nothing (m.along 2) cs)
  | '\'' :: cs => some (g.folded, ⟨cs, m.along 1⟩)
  | c :: cs =>
    -- A marker ends the document inside the quotes.
    if atAnyMarker ⟨c :: cs, m⟩ then none
    else if isSpace c then single (g.add c) (m.past c) cs
    else prepend (g.folded ++ [c]) (single .nothing (m.past c) cs)

/-- The character that an escape of one letter writes. -/
def escape? : Char → Option Char
  | '0' => some '\x00'
  | 'a' => some '\x07'
  | 'b' => some '\x08'
  | 't' => some '\t'
  | '\t' => some '\t'
  | 'n' => some '\n'
  | 'v' => some '\x0b'
  | 'f' => some '\x0c'
  | 'r' => some '\r'
  | 'e' => some '\x1b'
  | ' ' => some ' '
  | '"' => some '"'
  | '/' => some '/'
  | '\\' => some '\\'
  | 'N' => some '\u0085'
  | '_' => some '\u00a0'
  | 'L' => some '\u2028'
  | 'P' => some '\u2029'
  | _ => none

/-- The character with a code written in the base sixteen. -/
def coded? (digits : List Char) : Option Char := do
  let n ← natural? 16 digits
  if n.isValidChar then return Char.ofNat n else none

/-- The inside of a scalar in double quotes. -/
def double (g : Gap) (m : Mark) : List Char → Option (List Char × Cursor)
  | [] => none
  | '"' :: cs => some (g.folded, ⟨cs, m.along 1⟩)
  | '\\' :: 'x' :: a :: b :: cs =>
    match coded? [a, b] with
    | some c => prepend (g.folded ++ [c]) (double .nothing (m.along 4) cs)
    | none => none
  | '\\' :: 'u' :: a :: b :: c :: d :: cs =>
    match coded? [a, b, c, d] with
    | some c => prepend (g.folded ++ [c]) (double .nothing (m.along 6) cs)
    | none => none
  | '\\' :: 'U' :: a :: b :: c :: d :: e :: f :: x :: y :: cs =>
    match coded? [a, b, c, d, e, f, x, y] with
    | some c => prepend (g.folded ++ [c]) (double .nothing (m.along 10) cs)
    | none => none
  | '\\' :: c :: cs =>
    -- A backslash at the end of a line joins it to the next.
    if isBreak c then prepend g.folded (double .escaped (m.past c) cs)
    else
      match escape? c with
      | some c => prepend (g.folded ++ [c]) (double .nothing (m.along 2) cs)
      | none => none
  | c :: cs =>
    if atAnyMarker ⟨c :: cs, m⟩ then none
    else if isSpace c then double (g.add c) (m.past c) cs
    else prepend (g.folded ++ [c]) (double .nothing (m.past c) cs)

/-- A quoted scalar, from its opening quote on. -/
def quoted (quote : Char) (cur : Cursor) : Option (String × Cursor) :=
  let inside := if quote = '"' then double else single
  let cur := cur.forward 1
  (inside .nothing cur.mark cur.rest).map fun (cs, last) => (String.ofList cs, last)

/-! ### Blocks -/

/-- What becomes of the line ends behind a block. -/
inductive Chomp where
  | strip
  | clip
  | keep
  deriving DecidableEq

/-- The chomping that is told here. -/
def chomp (cur : Cursor) : Chomp × Cursor :=
  match cur.rest with
  | '-' :: _ => (.strip, cur.forward 1)
  | '+' :: _ => (.keep, cur.forward 1)
  | _ => (.clip, cur)

/-- The indentation that is told here, if any; it may not be zero. -/
def indentation? (cur : Cursor) : Option (Option Nat × Cursor) :=
  match cur.rest.head?.bind digitValue? with
  | some 0 => none
  | some n => some (some n, cur.forward 1)
  | none => some (none, cur)

/-- The header of a block behind its mark: chomping and indentation in either
order, then nothing but a comment; and the place behind the line. -/
def header? (cur : Cursor) : Option (Chomp × Option Nat × Cursor) := do
  let (told, cur) := cur.chomp
  let (width, cur) ← cur.indentation?
  let (told, cur) := if told = .clip then cur.chomp else (told, cur)
  let cur := cur.pastLine isGap
  let cur := if cur.rest.head? = some '#' then cur.pastLine fun _ => true else cur
  match cur.rest with
  | [] => return (told, width, cur)
  | c :: cs => if isBreak c then return (told, width, ⟨cs, cur.mark.past c⟩) else none

/-- The line ends before the first line of a block that holds something, and the
greatest column reached on the way.  Spaces are passed over up to a width, all
of them when the width is zero; a tab may not stand among them. -/
def leadIn (width deepest : Nat) (m : Mark) : List Char → Option (List Char × Nat × Cursor)
  | [] => some ([], max deepest m.column, ⟨[], m⟩)
  | c :: cs =>
    let indents := width = 0 || m.column < width
    if c = ' ' && indents then leadIn width deepest (m.past c) cs
    else if c = '\t' && indents then none
    else if isBreak c then prepend [c] (leadIn width (max deepest m.column) (m.past c) cs)
    else some ([], max deepest m.column, ⟨c :: cs, m⟩)

/-- The line ends of a block that have not been written yet. -/
structure Ends where
  /-- The end of the last line that holds something. -/
  last : List Char
  /-- The ends of the empty lines behind it. -/
  further : List Char
  /-- Whether that last line begins with a blank. -/
  blank : Bool

/-- The characters between two lines of a block, the second of which begins with
a character: a line feed is folded between two lines that begin with words. -/
def Ends.before (e : Ends) (folds : Bool) (c : Char) : List Char :=
  if folds && e.last = ['\n'] && !e.blank && !isGap c then
    if e.further.isEmpty then [' '] else e.further
  else e.last ++ e.further

/-- The characters behind the last line of a block. -/
def Ends.after (e : Ends) : Chomp → List Char
  | .strip => []
  | .clip => e.last
  | .keep => e.last ++ e.further

/-- The rest of a block whose lines are indented by a width, from inside a line
or from the indentation of a line on. -/
def blockFrom (folds : Bool) (told : Chomp) (width : Nat) (inLine : Bool) (e : Ends) (m : Mark) :
    List Char → Option (List Char × Cursor)
  | [] => some (e.after told, ⟨[], m⟩)
  | c :: cs =>
    if inLine then
      if isBreak c then blockFrom folds told width false { e with last := [c] } (m.past c) cs
      else prepend [c] (blockFrom folds told width true e (m.past c) cs)
    else if c = ' ' && m.column < width then blockFrom folds told width false e (m.past c) cs
    else if c = '\t' && m.column < width then none
    else if isBreak c then
      blockFrom folds told width false { e with further := e.further ++ [c] } (m.past c) cs
    else if m.column = width then
      prepend (e.before folds c ++ [c])
        (blockFrom folds told width true ⟨[], [], isGap c⟩ (m.past c) cs)
    else some (e.after told, ⟨c :: cs, m⟩)

/-- A block, from its mark on, in a collection whose parts are indented to
`base`.  Its own indentation is told, counted from that collection, or is that
of its first lines. -/
def blockText (folds : Bool) (base : Nat) (cur : Cursor) : Option (String × Cursor) := do
  let (told, indentation, cur) ← (cur.forward 1).header?
  let width := (indentation.map (base - 1 + ·)).getD 0
  let (breaks, deepest, cur) ← leadIn width 0 cur.mark cur.rest
  let width := if width = 0 then max deepest (max base 1) else width
  let (cs, last) ← blockFrom folds told width false ⟨[], breaks, false⟩ cur.mark cur.rest
  return (String.ofList cs, last)

end DocTemplate.Yaml.Cursor
