/-
From the tokens of a YAML text to its tree.

Where a node may be left out, the next token tells: a few tokens, different in
each place, stand only behind a node that is not written.  The items of a block
sequence that is the value of a key may stand right below that key; such a
sequence has no tokens for its begin and end.

Each function has a bound on its steps; a node takes at most four steps for a
token, so the bound of `Node.ofTokens?` is never met.
-/
import DocTemplate.Yaml.Node
import DocTemplate.Yaml.Token

namespace DocTemplate.Yaml.Node

/-- The tokens that follow a part of a block mapping that is left out. -/
def afterBlockPart : List Token := [.key, .value, .blockEnd]

/-- Past the comma before a part of a flow collection; none stands before its
first part and before its end. -/
def pastComma? (isFirst : Bool) (close : Token) (ts : List Token) : Option (List Token) :=
  match ts with
  | .comma :: rest => if isFirst then some ts else some rest
  | t :: _ => if isFirst || t = close then some ts else none
  | [] => none

mutual

/-- A node; `inBlock` tells whether it may be a block collection, `belowKey`
whether it may be a block sequence right below its key. -/
def node : Nat → (inBlock belowKey : Bool) → List Token → Option (Node × List Token)
  | 0, _, _, _ => none
  | n + 1, inBlock, belowKey, ts =>
    match ts with
    | .scalar isPlain text :: ts => some (if isPlain then .plain text else .quoted text, ts)
    | .openSequence :: ts => (flowItems n true ts).map fun (ns, ts) => (.sequence ns, ts)
    | .openMapping :: ts => (flowEntries n true ts).map fun (es, ts) => (.mapping es, ts)
    | .item :: _ =>
      if belowKey then (itemsBelowKey n ts).map fun (ns, ts) => (.sequence ns, ts) else none
    | .blockSequence :: ts =>
      if inBlock then (blockItems n ts).map fun (ns, ts) => (.sequence ns, ts) else none
    | .blockMapping :: ts =>
      if inBlock then (blockEntries n ts).map fun (es, ts) => (.mapping es, ts) else none
    | _ => none

/-- A node that is left out when one of some tokens comes next. -/
def optional : Nat → (absent : List Token) → (inBlock belowKey : Bool) → List Token →
    Option (Node × List Token)
  | 0, _, _, _, _ => none
  | n + 1, absent, inBlock, belowKey, ts =>
    if ts.head?.any absent.contains then some (.empty, ts) else node n inBlock belowKey ts

/-- The value behind a key, if there is one. -/
def valueOf : Nat → (absent : List Token) → (inBlock belowKey : Bool) → List Token →
    Option (Node × List Token)
  | 0, _, _, _, _ => none
  | n + 1, absent, inBlock, belowKey, ts =>
    match ts with
    | .value :: ts => optional n absent inBlock belowKey ts
    | ts => some (.empty, ts)

/-- The items of a block sequence, up to its end. -/
def blockItems : Nat → List Token → Option (List Node × List Token)
  | 0, _ => none
  | n + 1, ts =>
    match ts with
    | .item :: ts => do
      let (node, ts) ← optional n [.item, .blockEnd] true false ts
      let (nodes, ts) ← blockItems n ts
      return (node :: nodes, ts)
    | .blockEnd :: ts => some ([], ts)
    | _ => none

/-- The items of a block sequence right below its key. -/
def itemsBelowKey : Nat → List Token → Option (List Node × List Token)
  | 0, _ => none
  | n + 1, ts =>
    match ts with
    | .item :: ts => do
      let (node, ts) ← optional n (.item :: afterBlockPart) true false ts
      let (nodes, ts) ← itemsBelowKey n ts
      return (node :: nodes, ts)
    | ts => some ([], ts)

/-- The entries of a block mapping, up to its end. -/
def blockEntries : Nat → List Token → Option (List (Node × Node) × List Token)
  | 0, _ => none
  | n + 1, ts =>
    match ts with
    | .key :: ts => do
      let (key, ts) ← optional n afterBlockPart true true ts
      let (value, ts) ← valueOf n afterBlockPart true true ts
      let (entries, ts) ← blockEntries n ts
      return ((key, value) :: entries, ts)
    | .blockEnd :: ts => some ([], ts)
    | _ => none

/-- The items of a flow sequence, up to its end; a key among them makes a
mapping of one entry. -/
def flowItems : Nat → (isFirst : Bool) → List Token → Option (List Node × List Token)
  | 0, _, _ => none
  | n + 1, isFirst, ts =>
    match pastComma? isFirst .closeSequence ts with
    | none => none
    | some (.closeSequence :: ts) => some ([], ts)
    | some (.key :: ts) => do
      let (key, ts) ← flowKey n ts
      let (value, ts) ← valueOf n [.comma, .closeSequence] false false ts
      let (nodes, ts) ← flowItems n false ts
      return (.mapping [(key, value)] :: nodes, ts)
    | some ts => do
      let (node, ts) ← node n false false ts
      let (nodes, ts) ← flowItems n false ts
      return (node :: nodes, ts)

/-- The key of an item of a flow sequence; one that is left out takes the next
token with it. -/
def flowKey : Nat → List Token → Option (Node × List Token)
  | 0, _ => none
  | n + 1, ts =>
    if ts.head?.any [Token.value, .comma, .closeSequence].contains then some (.empty, ts.tail)
    else node n false false ts

/-- The entries of a flow mapping, up to its end; a node without a mark in front
of it is a key without a value. -/
def flowEntries : Nat → (isFirst : Bool) → List Token →
    Option (List (Node × Node) × List Token)
  | 0, _, _ => none
  | n + 1, isFirst, ts =>
    match pastComma? isFirst .closeMapping ts with
    | none => none
    | some (.closeMapping :: ts) => some ([], ts)
    | some (.key :: ts) => do
      let (key, ts) ← optional n [.value, .comma, .closeMapping] false false ts
      let (value, ts) ← valueOf n [.comma, .closeMapping] false false ts
      let (entries, ts) ← flowEntries n false ts
      return ((key, value) :: entries, ts)
    | some ts => do
      let (key, ts) ← node n false false ts
      let (entries, ts) ← flowEntries n false ts
      return ((key, .empty) :: entries, ts)

end

/-- The tree of the tokens of a text, none inside when the text holds no
document.  There may be one document, with lines that end it. -/
def ofTokens? (ts : List Token) : Option (Option Node) := do
  let bound := 4 * ts.length + 4
  match ts with
  | [] => return none
  | _ =>
    let (node, ts) ← match ts with
      | .documentStart :: ts =>
        if ts.isEmpty then some (.empty, ts)
        else optional bound [.documentStart, .documentEnd] true false ts
      | ts => node bound true false ts
    if (ts.dropWhile (· = .documentEnd)).isEmpty then return some node else none

end DocTemplate.Yaml.Node
