/-
Documents as they are written.

`Source` is the tree of a JSON text before its scalars and keys are checked: a
number that no double can hold and a text with half of a surrogate pair are
there as `none`, and the members of an object stand in the order of the text,
repeated keys included.  A reader that skips a member needs only this.

* `Source.ofText?` — the tree of a text: tokens, then one pass over them with
  the containers that are still open on a stack;
* `Source.resolve?` — the document a tree denotes: all scalars must denote
  something, containers may be nested `maxDepth` deep, and of several members
  under one key the last one counts;
* `Json.ofText?` — both together.
-/
import DocTemplate.Decimal.Literal
import DocTemplate.Json.Basic

namespace DocTemplate.Json

open DocTemplate.Decimal DocTemplate.Text

/-- A document as it is written. -/
inductive Source where
  | null
  | bool (value : Bool)
  | number (value : Option Number)
  | string (value : Option String)
  | array (items : List Source)
  | object (members : List (Option String × Source))

/-- The number that a literal denotes; none when its magnitude is out of range. -/
def Number.ofLiteral? (l : Literal) : Option Number :=
  let n := naturalOfDigits 10 l.whole
  if l.isWhole ∧ n < 1 <<< 64 ∧ ¬ l.negative then some (.integer n)
  -- Zero with a minus is the double that has this sign.
  else if l.isWhole ∧ n ≤ 1 <<< 63 ∧ n ≠ 0 then some (.integer (-n))
  else l.approximate.map (.ofBinary l.negative)

/-! ### Tokens -/

/-- The least parts of a JSON text. -/
inductive Token where
  | openArray
  | closeArray
  | openObject
  | closeObject
  | comma
  | colon
  | scalar (value : Source)

/-- The 16-bit unit written by four digits of the base sixteen. -/
def unit? (a b c d : Char) : Option Nat := natural? 16 [a, b, c, d]

/-- Whether a unit is the first half of a surrogate pair. -/
def isHighHalf (n : Nat) : Bool := 0xD800 ≤ n && n < 0xDC00

/-- Whether a unit is the second half of a surrogate pair. -/
def isLowHalf (n : Nat) : Bool := 0xDC00 ≤ n && n < 0xE000

/-- The characters that units denote; none when half of a pair stands alone. -/
def ofUnits? : List Nat → Option (List Char)
  | [] => some []
  | high :: low :: units =>
    if isHighHalf high then
      if isLowHalf low then
        (ofUnits? units).map
          (Char.ofNat (0x10000 + (high - 0xD800) * 0x400 + (low - 0xDC00)) :: ·)
      else none
    else if isLowHalf high then none
    else (ofUnits? (low :: units)).map (Char.ofNat high :: ·)
  | [n] => if isHighHalf n || isLowHalf n then none else some [Char.ofNat n]

/-- The character written by a backslash and one character after it. -/
def shortEscape? : Char → Option Char
  | '"' => some '"'
  | '\\' => some '\\'
  | '/' => some '/'
  | 'b' => some '\x08'
  | 'f' => some '\x0c'
  | 'n' => some '\n'
  | 'r' => some '\r'
  | 't' => some '\t'
  | _ => none

/-- Put characters in front of a scanned text, when both denote something. -/
def withFront (front : Option (List Char)) :
    Option (Option (List Char) × List Char) → Option (Option (List Char) × List Char)
  | some (body, rest) => some (do return (← front) ++ (← body), rest)
  | none => none

/-- The inside of a quoted text up to its closing quote, what it denotes (none
for half of a surrogate pair), and the rest.  The units of escapes that follow
each other directly are collected so that pairs can be joined. -/
def quoted (units : List Nat) : List Char → Option (Option (List Char) × List Char)
  | '\\' :: 'u' :: a :: b :: c :: d :: cs =>
    match unit? a b c d with
    | some n => quoted (units ++ [n]) cs
    | none => none
  | '\\' :: c :: cs =>
    match shortEscape? c with
    | some c => withFront ((ofUnits? units).map (· ++ [c])) (quoted [] cs)
    | none => none
  | '"' :: cs => some (ofUnits? units, cs)
  | c :: cs =>
    if c.toNat < 0x20 then none
    else withFront ((ofUnits? units).map (· ++ [c])) (quoted [] cs)
  | [] => none

/-- The blanks between tokens. -/
def isGap (c : Char) : Bool := c = ' ' || c = '\t' || c = '\n' || c = '\r'

/-- The token at the front of a text, and the rest. -/
def token : List Char → Option (Token × List Char)
  | '[' :: cs => some (.openArray, cs)
  | ']' :: cs => some (.closeArray, cs)
  | '\x7b' :: cs => some (.openObject, cs)
  | '\x7d' :: cs => some (.closeObject, cs)
  | ',' :: cs => some (.comma, cs)
  | ':' :: cs => some (.colon, cs)
  | '"' :: cs => (quoted [] cs).map fun (s, rest) => (.scalar (.string (s.map String.ofList)), rest)
  | 'n' :: 'u' :: 'l' :: 'l' :: cs => some (.scalar .null, cs)
  | 't' :: 'r' :: 'u' :: 'e' :: cs => some (.scalar (.bool true), cs)
  | 'f' :: 'a' :: 'l' :: 's' :: 'e' :: cs => some (.scalar (.bool false), cs)
  | cs => (Literal.scan cs).map fun (l, rest) => (.scalar (.number (Number.ofLiteral? l)), rest)

/-- The tokens of a text; every token takes a character, so a bound of the
text's length is never met. -/
def tokens : Nat → List Char → Option (List Token)
  | _, [] => some []
  | 0, _ :: _ => none
  | bound + 1, c :: cs =>
    if isGap c then tokens bound cs
    else do
      let (t, rest) ← token (c :: cs)
      return t :: (← tokens bound rest)

/-! ### Trees -/

/-- A container that is still open, with what it holds so far, last first. -/
inductive Frame where
  | array (items : List Source)
  | object (members : List (Option String × Source)) (key : Option String)

/-- What may come next. -/
inductive Place where
  | value
  | firstItem
  | firstKey
  | key
  | colon
  | afterValue
  | done (tree : Source)

/-- A tree under construction. -/
structure Builder where
  frames : List Frame
  place : Place

namespace Builder

/-- Nothing has been read. -/
def start : Builder := ⟨[], .value⟩

/-- A value is complete. -/
def deliver (value : Source) : List Frame → Builder
  | [] => ⟨[], .done value⟩
  | .array items :: fs => ⟨.array (value :: items) :: fs, .afterValue⟩
  | .object members key :: fs => ⟨.object ((key, value) :: members) none :: fs, .afterValue⟩

/-- The innermost container is closed. -/
def close (isArray : Bool) : List Frame → Option Builder
  | .array items :: fs =>
    if isArray then some (deliver (.array items.reverse) fs) else none
  | .object members _ :: fs =>
    if isArray then none else some (deliver (.object members.reverse) fs)
  | [] => none

/-- Read one token. -/
def step (b : Builder) (t : Token) : Option Builder :=
  match b.place, t with
  | .value, .scalar v | .firstItem, .scalar v => some (deliver v b.frames)
  | .value, .openArray | .firstItem, .openArray => some ⟨.array [] :: b.frames, .firstItem⟩
  | .value, .openObject | .firstItem, .openObject =>
    some ⟨.object [] none :: b.frames, .firstKey⟩
  | .firstItem, .closeArray => close true b.frames
  | .firstKey, .closeObject => close false b.frames
  | .firstKey, .scalar (.string key) | .key, .scalar (.string key) =>
    match b.frames with
    | .object members _ :: fs => some ⟨.object members key :: fs, .colon⟩
    | _ => none
  | .colon, .colon => some ⟨b.frames, .value⟩
  | .afterValue, .comma =>
    match b.frames with
    | .array _ :: _ => some ⟨b.frames, .value⟩
    | .object _ _ :: _ => some ⟨b.frames, .key⟩
    | [] => none
  | .afterValue, .closeArray => close true b.frames
  | .afterValue, .closeObject => close false b.frames
  | _, _ => none

end Builder

namespace Source

/-- The tree of a text. -/
def ofText? (s : String) : Option Source := do
  let ts ← tokens s.toList.length s.toList
  match (← ts.foldlM Builder.step .start).place with
  | .done tree => some tree
  | _ => none

/-! ### Documents -/

/-- The greatest number of containers inside one another. -/
def maxDepth : Nat := 127

mutual

/-- The document of a tree whose containers may be nested `depth` deep. -/
def resolveWithin (depth : Nat) : Source → Option Json
  | .null => some .null
  | .bool b => some (.bool b)
  | .number n => n.map .number
  | .string s => s.map .string
  | .array items => if depth = 0 then none else (resolveItems (depth - 1) items).map .array
  | .object members =>
    if depth = 0 then none else (resolveMembers (depth - 1) [] members).map .object

/-- The documents of the items of an array. -/
def resolveItems (depth : Nat) : List Source → Option (List Json)
  | [] => some []
  | item :: items => do
    let doc ← resolveWithin depth item
    return doc :: (← resolveItems depth items)

/-- Members added to those read so far, a later one in place of an earlier one. -/
def resolveMembers (depth : Nat) (read : Entries Json) :
    List (Option String × Source) → Option (Entries Json)
  | [] => some read
  | (key, value) :: members => do
    let doc ← resolveWithin depth value
    resolveMembers depth (read.put (← key) doc) members

end

/-- The document that a tree denotes. -/
def resolve? (tree : Source) : Option Json := tree.resolveWithin maxDepth

end Source

/-- The document that a text denotes. -/
def ofText? (s : String) : Option Json := do (← Source.ofText? s).resolve?

end DocTemplate.Json
