/-
Reading YAML.

The reader knows block and flow collections, plain and quoted scalars, literal
and folded blocks, explicit keys, comments and one document per text; anchors,
tags and directives are refused.

* `Yaml.read?` — the tree of a text, none inside when the text holds nothing;
* `Yaml.documentOf?` — the document in a text;
* `Yaml.configOf?` — the configuration in a text.
-/
import DocTemplate.Config
import DocTemplate.Yaml.Layout
import DocTemplate.Yaml.Nesting

namespace DocTemplate.Yaml

/-! ### Texts -/

/-- Whether a character may stand in a text. -/
def isAllowed (c : Char) : Bool :=
  let n := c.toNat
  n = 0x09 || n = 0x0A || n = 0x0D || (0x20 ≤ n && n ≤ 0x7E) || n = 0x85
    || (0xA0 ≤ n && n ≤ 0xFFFD) || 0x10000 ≤ n

/-- A text with all line ends written alike. -/
def unifyBreaks : List Char → List Char
  | '\r' :: '\n' :: cs => '\n' :: unifyBreaks cs
  | c :: cs => (if c = '\r' || c = '\u0085' then '\n' else c) :: unifyBreaks cs
  | [] => []

/-- The tree of a text, none inside when the text holds no document. -/
def read? (text : String) : Option (Option Node) := do
  if !text.toList.all isAllowed then none
  Node.ofTokens? (← Token.ofText? (unifyBreaks text.toList))

/-- The document in a text; a text that holds nothing stands for null. -/
def documentOf? (text : String) : Option Json := do
  match ← read? text with
  | some node => node.toJson?
  | none => return .null

/-! ### Configurations -/

/-- What a node stands for as a setting. -/
def settingOf : Node → Config.Setting
  | .plain t =>
    match Scalar.ofPlain t with
    | .null => .null
    | .bool b => .flag b
    | .integer _ => ((Scalar.word? t).map .count).getD .other
    | _ => .other
  | _ => .other

/-- The configuration that a tree stands for: a mapping; nothing written stands
for the standard one. -/
def configOfNode? : Node → Option Config
  | .mapping entries => do
    let keys ← entries.mapM (·.1.scalarText?)
    Config.ofFields? ((keys.zip (entries.map Prod.snd)).filterMap fun (key, value) =>
      (Config.Field.ofName? key).map fun f => (f, settingOf value))
  | .plain "" => some .standard
  | _ => none

/-- The configuration in a text. -/
def configOf? (text : String) : Option Config := do
  configOfNode? ((← read? text).getD .empty)

end DocTemplate.Yaml
