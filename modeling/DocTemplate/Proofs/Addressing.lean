/-
Data paths as they are written.

A key can be written behind a point, or in brackets: bare, or in quotes of either kind, with
blanks around it.  Each way asks for a text without what ends it.  However the keys of a data path
are written, they are read back as its segments, as long as they can be segments at all: not empty,
without blanks at their ends and without points.  Quotes change nothing about that: a key in
quotes is put behind a point and cut like any other text.

* `DataPath.Spells` — the ways to write a row of keys;
* `DataPath.segments_parse_of_spells` — they are read back as they were written;
* `DataPath.follow_eq_some_iff`, `DataPath.follow_eq_none_iff` — where a row of keys leads, and
  when it leads nowhere;
* `DataPath.lookup_of_spells` — a written path leads where its keys lead one by one;
* `DataPath.quoted_bracket_reaches` — the keys that a quoted bracket reaches are those that can
  be a segment;
* `DataPath.quoted_bracket_misses` — it does not reach every key.
-/
import DocTemplate.Proofs.Brackets

namespace DocTemplate.DataPath

open DocTemplate.Text DocTemplate.Pipeline

/-- A key that can be a segment of a data path. -/
structure IsSegment (key : String) : Prop where
  nonempty : key ≠ ""
  /-- There are no blanks at its ends. -/
  trimmed : Text.trim key = key
  point : '.' ∉ key.toList

/-- The ways to write a key in brackets. -/
inductive SpellsBracket : String → String → Prop
  /-- As it is, when no quote begins it. -/
  | bare {key before after : String} : ']' ∉ key.toList →
      (∀ c, key.toList.head? = some c → isQuote c = false) →
      (∀ c ∈ before.toList, isBlank c = true) → (∀ c ∈ after.toList, isBlank c = true) →
      SpellsBracket key ("[" ++ before ++ key ++ after ++ "]")
  /-- In quotes that it does not hold. -/
  | quoted {key before after : String} {quote : Char} : isQuote quote = true →
      quote ∉ key.toList →
      (∀ c ∈ before.toList, isBlank c = true) → (∀ c ∈ after.toList, isBlank c = true) →
      SpellsBracket key ("[" ++ before ++ marked quote key ++ after ++ "]")

/-- The ways to write a row of keys as a data path. -/
inductive Spells : List String → String → Prop
  | name {key : String} : '[' ∉ key.toList → Spells [key] key
  | bracket {key text : String} : SpellsBracket key text → Spells [key] text
  | append_name {keys : List String} {text key : String} : Spells keys text → '[' ∉ key.toList →
      Spells (keys ++ [key]) (text ++ "." ++ key)
  | append_bracket {keys : List String} {text key part : String} : Spells keys text →
      SpellsBracket key part → Spells (keys ++ [key]) (text ++ part)

variable {quote : Char} {cs key before after rest : List Char}

/-! ### Keys in brackets -/

theorem isBlank_of_isQuote (h : isQuote quote = true) : isBlank quote = false := by
  simp only [isQuote, Bool.or_eq_true, decide_eq_true_eq] at h
  rcases h with rfl | rfl <;> decide

theorem quotedKey?_of_ne (h : cs.head? ≠ some quote) : quotedKey? quote cs = none := by
  cases cs with
  | nil => rfl
  | cons c cs => simpa [quotedKey?] using fun hc : c = quote => absurd (congrArg some hc) h

/-- Blanks just inside an opening bracket belong to no key. -/
theorem bracketKey?_append (h : ∀ c ∈ before, isBlank c = true)
    (hcs : ∀ c, cs.head? = some c → isBlank c = false) :
    bracketKey? (before ++ cs)
      = (quotedKey? '"' cs).or ((quotedKey? '\'' cs).or (bareKey? cs)) := by
  have hstart : trimStart (before ++ cs) = cs :=
    (List.dropWhile_append_of_pos h).trans (trimStart_eq_self_iff.mpr hcs)
  rw [bracketKey?, hstart]

/-- A key in quotes is read up to the closing quote, whatever it holds. -/
theorem bracketKey?_quoted (hquote : isQuote quote = true) (hkey : quote ∉ key)
    (hbefore : ∀ c ∈ before, isBlank c = true) (hafter : ∀ c ∈ after, isBlank c = true) :
    bracketKey? (before ++ quote :: (key ++ quote :: (after ++ ']' :: rest)))
      = some (key, rest) := by
  have hread : quotedKey? quote (quote :: (key ++ quote :: (after ++ ']' :: rest)))
      = some (key, rest) := by
    have hpast : pastBracket? (after ++ ']' :: rest) = some rest :=
      pastBracket?_eq_some_iff.mpr ⟨after, rfl, hafter⟩
    rw [quotedKey?, if_pos rfl, upTo_eq_some_iff.mpr ⟨rfl, hkey⟩]
    simp only [Option.bind_some, hpast, Option.map_some]
  have hblank : isBlank quote = false := isBlank_of_isQuote hquote
  rw [bracketKey?_append hbefore (by simpa using hblank)]
  simp only [isQuote, Bool.or_eq_true, decide_eq_true_eq] at hquote
  rcases hquote with rfl | rfl
  · rw [hread, Option.some_or]
  · rw [quotedKey?_of_ne (by simp), Option.none_or, hread, Option.some_or]

/-- A bare key is read up to the blanks before the closing bracket. -/
theorem bracketKey?_bare (hne : key ≠ []) (htrimmed : trimChars key = key) (hkey : ']' ∉ key)
    (hquote : ∀ c, key.head? = some c → isQuote c = false)
    (hbefore : ∀ c ∈ before, isBlank c = true) (hafter : ∀ c ∈ after, isBlank c = true) :
    bracketKey? (before ++ (key ++ (after ++ ']' :: rest))) = some (key, rest) := by
  obtain ⟨hfirst, hlast⟩ := trimChars_eq_self_iff.mp htrimmed
  have hhead : (key ++ (after ++ ']' :: rest)).head? = key.head? :=
    List.head?_append_of_ne_nil _ hne
  have hopen : ∀ quote, isQuote quote = true →
      quotedKey? quote (key ++ (after ++ ']' :: rest)) = none := by
    intro quote hisQuote
    refine quotedKey?_of_ne ?_
    intro h
    simp [hquote quote (hhead ▸ h)] at hisQuote
  have hbare : bareKey? (key ++ (after ++ ']' :: rest)) = some (key, rest) := by
    have hbracket : ']' ∉ key ++ after := by
      intro hmem
      rcases List.mem_append.mp hmem with hmem | hmem
      · exact hkey hmem
      · exact absurd (hafter _ hmem) (by decide)
    have hend : trimEnd (key ++ after) = key := by
      rw [trimEnd, List.reverse_append,
        List.dropWhile_append_of_pos fun c hc => hafter c (List.mem_reverse.mp hc)]
      exact trimEnd_eq_self_iff.mpr hlast
    rw [bareKey?, ← List.append_assoc, upTo_eq_some_iff.mpr ⟨rfl, hbracket⟩]
    simp only [Option.map_some, hend]
  rw [bracketKey?_append hbefore (hhead ▸ hfirst), hopen '"' rfl, hopen '\'' rfl, hbare]
  rfl

/-! ### Reading what was written -/

variable {name text opened closed : String} {keys : List String}

theorem IsSegment.ne_nil (h : IsSegment name) : name.toList ≠ [] := by
  simpa using h.nonempty

theorem IsSegment.trimChars_toList (h : IsSegment name) :
    trimChars name.toList = name.toList := by
  have htrimmed := congrArg String.toList h.trimmed
  rwa [Text.trim, String.toList_ofList] at htrimmed

/-- A bracket with a key inside is found, and replaced by a point and the key. -/
theorem withoutBrackets_bracket (h : bracketKey? cs = some (key, rest)) :
    withoutBrackets ('[' :: cs) = '.' :: key ++ withoutBrackets rest := by
  have hfound := head?_ways_bracket cs
  rw [h] at hfound
  rw [withoutBrackets_eq_replace, withoutBrackets_eq_replace,
    Search.replace_of_head?_ways _ hfound]
  rfl

/-- A key in a quoted bracket is a point and the key, whatever the key is. -/
theorem withoutBrackets_quoted (hquote : isQuote quote = true) (hname : quote ∉ name.toList)
    (hopened : ∀ c ∈ opened.toList, isBlank c = true)
    (hclosed : ∀ c ∈ closed.toList, isBlank c = true) (more : List Char) :
    withoutBrackets (("[" ++ opened ++ marked quote name ++ closed ++ "]").toList ++ more)
      = '.' :: name.toList ++ withoutBrackets more := by
  have hkey : bracketKey?
      (opened.toList ++ quote :: (name.toList ++ quote :: (closed.toList ++ ']' :: more)))
      = some (name.toList, more) := bracketKey?_quoted hquote hname hopened hclosed
  simpa [marked] using withoutBrackets_bracket hkey

/-- A key in brackets is a point and the key, whatever is written behind it. -/
theorem withoutBrackets_append_of_spellsBracket (h : SpellsBracket name text)
    (hname : IsSegment name) (more : List Char) :
    withoutBrackets (text.toList ++ more) = '.' :: name.toList ++ withoutBrackets more := by
  cases h with
  | @bare before after hbracket hquote hbefore hafter =>
    have hkey : bracketKey? (before.toList ++ (name.toList ++ (after.toList ++ ']' :: more)))
        = some (name.toList, more) :=
      bracketKey?_bare hname.ne_nil hname.trimChars_toList hbracket hquote hbefore hafter
    simpa using withoutBrackets_bracket hkey
  | quoted hquote hopen hbefore hafter =>
    exact withoutBrackets_quoted hquote hopen hbefore hafter more

theorem withoutBrackets_of_spellsBracket (h : SpellsBracket name text)
    (hname : IsSegment name) : withoutBrackets text.toList = '.' :: name.toList := by
  simpa [withoutBrackets] using withoutBrackets_append_of_spellsBracket h hname []

/-- Brackets behind a written path reach into it no more than it reaches into them. -/
theorem withoutBrackets_append_of_spells (h : Spells keys text)
    (hkeys : ∀ key ∈ keys, IsSegment key) (more : List Char) :
    withoutBrackets (text.toList ++ more)
      = withoutBrackets text.toList ++ withoutBrackets more := by
  induction h generalizing more with
  | name hopen =>
    rw [withoutBrackets_append_of_not_mem hopen, withoutBrackets_of_not_mem hopen]
  | bracket hpart =>
    have hname := List.forall_mem_singleton.mp hkeys
    rw [withoutBrackets_append_of_spellsBracket hpart hname,
      withoutBrackets_of_spellsBracket hpart hname]
  | append_name _ hopen ih =>
    have ih := ih (List.forall_mem_append.mp hkeys).1
    have hpoint : '[' ∉ ".".toList := by decide
    simp only [String.toList_append, List.append_assoc]
    rw [ih, withoutBrackets_append_of_not_mem hpoint, withoutBrackets_append_of_not_mem hopen, ih,
      withoutBrackets_append_of_not_mem hpoint, withoutBrackets_of_not_mem hopen]
    simp only [List.append_assoc]
  | append_bracket _ hpart ih =>
    obtain ⟨hfront, hlast⟩ := List.forall_mem_append.mp hkeys
    have hname := List.forall_mem_singleton.mp hlast
    have ih := ih hfront
    rw [String.toList_append, List.append_assoc, ih,
      withoutBrackets_append_of_spellsBracket hpart hname, ih,
      withoutBrackets_of_spellsBracket hpart hname, List.append_assoc]

theorem segmentsOf_append_point (front back : List Char) :
    segmentsOf (front ++ '.' :: back) = segmentsOf front ++ segmentsOf back := by
  rw [segmentsOf, pieces_append_cons, List.map_append, List.filter_append]
  rfl

theorem segmentsOf_point_cons (cs : List Char) : segmentsOf ('.' :: cs) = segmentsOf cs :=
  segmentsOf_append_point [] cs

theorem IsSegment.segmentsOf_toList (h : IsSegment name) :
    segmentsOf name.toList = [name.toList] := by
  rw [segmentsOf, pieces_of_not_mem h.point, List.map_singleton, h.trimChars_toList]
  simp [h.nonempty]

theorem segmentsOf_withoutBrackets_of_spells (h : Spells keys text)
    (hkeys : ∀ key ∈ keys, IsSegment key) :
    segmentsOf (withoutBrackets text.toList) = keys.map String.toList := by
  induction h with
  | name hopen =>
    rw [withoutBrackets_of_not_mem hopen]
    exact (List.forall_mem_singleton.mp hkeys).segmentsOf_toList
  | bracket hpart =>
    have hname := List.forall_mem_singleton.mp hkeys
    rw [withoutBrackets_of_spellsBracket hpart hname, segmentsOf_point_cons]
    exact hname.segmentsOf_toList
  | @append_name keys text name hspells hopen ih =>
    obtain ⟨hfront, hlast⟩ := List.forall_mem_append.mp hkeys
    have hname := List.forall_mem_singleton.mp hlast
    have hpoint : '[' ∉ '.' :: name.toList := by simpa using hopen
    have htext : (text ++ "." ++ name).toList = text.toList ++ '.' :: name.toList := by simp
    rw [htext, withoutBrackets_append_of_spells hspells hfront, withoutBrackets_of_not_mem hpoint,
      segmentsOf_append_point, ih hfront, hname.segmentsOf_toList, List.map_append]
    rfl
  | @append_bracket keys text name part hspells hpart ih =>
    obtain ⟨hfront, hlast⟩ := List.forall_mem_append.mp hkeys
    have hname := List.forall_mem_singleton.mp hlast
    rw [String.toList_append, withoutBrackets_append_of_spells hspells hfront,
      withoutBrackets_of_spellsBracket hpart hname, segmentsOf_append_point, ih hfront,
      hname.segmentsOf_toList, List.map_append]
    rfl

theorem ends_of_spellsBracket (h : SpellsBracket name text) :
    text.toList ≠ [] ∧ trimChars text.toList = text.toList := by
  have hends : ∀ mid : String, ("[" ++ mid ++ "]").toList ≠ []
      ∧ trimChars ("[" ++ mid ++ "]").toList = ("[" ++ mid ++ "]").toList := by
    intro mid
    refine ⟨by simp, ?_⟩
    rw [String.toList_append, String.toList_append]
    exact trimChars_append_append (by decide) (by decide) (by decide) (by decide) _
  cases h with
  | @bare before after => simpa only [String.append_assoc] using hends (before ++ name ++ after)
  | @quoted before after quote =>
    simpa only [String.append_assoc] using hends (before ++ marked quote name ++ after)

theorem ends_of_spells (h : Spells keys text) (hkeys : ∀ key ∈ keys, IsSegment key) :
    text.toList ≠ [] ∧ trimChars text.toList = text.toList := by
  induction h with
  | name _ =>
    have hname := List.forall_mem_singleton.mp hkeys
    exact ⟨hname.ne_nil, hname.trimChars_toList⟩
  | bracket hpart => exact ends_of_spellsBracket hpart
  | append_name _ _ ih =>
    obtain ⟨hfront, hlast⟩ := List.forall_mem_append.mp hkeys
    have hname := List.forall_mem_singleton.mp hlast
    obtain ⟨hne, htrimmed⟩ := ih hfront
    refine ⟨by simp, ?_⟩
    rw [String.toList_append, String.toList_append]
    exact trimChars_append_append hne hname.ne_nil htrimmed hname.trimChars_toList _
  | append_bracket _ hpart ih =>
    obtain ⟨hne, htrimmed⟩ := ih (List.forall_mem_append.mp hkeys).1
    obtain ⟨hpartne, hparttrimmed⟩ := ends_of_spellsBracket hpart
    rw [String.toList_append]
    refine ⟨List.append_ne_nil_of_left_ne_nil hne _, ?_⟩
    simpa using trimChars_append_append hne hpartne htrimmed hparttrimmed []

/-- The keys of a written path are its segments. -/
theorem segments_parse_of_spells (h : Spells keys text) (hkeys : ∀ key ∈ keys, IsSegment key) :
    (parse text).segments = keys := by
  rw [parse, (ends_of_spells h hkeys).2, segmentsOf_withoutBrackets_of_spells h hkeys, List.map_map]
  exact List.map_id'' (fun _ => String.ofList_toList) keys

/-! ### Following keys -/

/-- Where a row of keys leads in a document, one key after the other: a key is the name of a member
in an object and the digits of an index in an array, and leads nowhere elsewhere. -/
inductive Leads : Json → List String → Json → Prop
  | here (doc : Json) : Leads doc [] doc
  | member {members : Entries Json} {key : String} {part value : Json} {keys : List String} :
      Entries.find? members key = some part → Leads part keys value →
      Leads (.object members) (key :: keys) value
  | item {items : List Json} {key : String} {i : Nat} {part value : Json} {keys : List String} :
      Word.read? key = some i → items[i]? = some part → Leads part keys value →
      Leads (.array items) (key :: keys) value

variable {doc value : Json}

theorem leads_cons_iff :
    Leads doc (name :: keys) value
      ↔ ∃ part, step? doc name = some part ∧ Leads part keys value := by
  constructor
  · intro h
    cases h with
    | member hfind hrest => exact ⟨_, hfind, hrest⟩
    | item hread hget hrest =>
      refine ⟨_, ?_, hrest⟩
      rw [step?, hread]
      exact hget
  · rintro ⟨part, hpart, hrest⟩
    cases doc with
    | null | bool | number | string => simp [step?] at hpart
    | object members => exact .member hpart hrest
    | array items =>
      obtain ⟨i, hread, hget⟩ := Option.bind_eq_some_iff.mp hpart
      exact .item hread hget hrest

theorem leads_singleton_iff : Leads doc [name] value ↔ step? doc name = some value := by
  rw [leads_cons_iff]
  constructor
  · rintro ⟨part, hpart, ⟨⟩⟩
    exact hpart
  · intro h
    exact ⟨value, h, .here value⟩

/-- Following gives the document that the keys lead to. -/
theorem follow_eq_some_iff : follow doc keys = some value ↔ Leads doc keys value := by
  induction keys generalizing doc with
  | nil =>
    constructor
    · rintro ⟨⟩
      exact .here _
    · rintro ⟨⟩
      rfl
  | cons key keys ih =>
    rw [leads_cons_iff]
    exact Option.bind_eq_some_iff.trans (exists_congr fun part => and_congr_right' ih)

theorem follow_append (doc : Json) (front back : List String) :
    follow doc (front ++ back) = (follow doc front).bind (follow · back) := by
  induction front generalizing doc with
  | nil => rfl
  | cons key front ih =>
    rw [List.cons_append, follow, follow]
    cases step? doc key with
    | none => rfl
    | some part => exact ih part

/-- Following gives nothing when some key is the first that leads nowhere. -/
theorem follow_eq_none_iff :
    follow doc keys = none
      ↔ ∃ front key back part, keys = front ++ key :: back ∧ Leads doc front part
        ∧ ∀ next, ¬ Leads part [key] next := by
  constructor
  · intro h
    induction keys generalizing doc with
    | nil => simp [follow] at h
    | cons key keys ih =>
      cases hpart : step? doc key with
      | none =>
        refine ⟨[], key, keys, doc, rfl, .here doc, ?_⟩
        intro next hnext
        simp [leads_singleton_iff.mp hnext] at hpart
      | some part =>
        rw [follow, hpart] at h
        obtain ⟨front, stop, back, last, rfl, hfront, hstop⟩ := ih h
        have hleads := leads_cons_iff.mpr ⟨part, hpart, hfront⟩
        exact ⟨key :: front, stop, back, last, rfl, hleads, hstop⟩
  · rintro ⟨front, key, back, part, rfl, hfront, hstop⟩
    have hnone : step? part key = none :=
      Option.eq_none_iff_forall_ne_some.mpr fun next h => hstop next (leads_singleton_iff.mpr h)
    rw [follow_append, follow_eq_some_iff.mpr hfront, Option.bind_some, follow, hnone]
    rfl

/-- A data path reads back the keys that it was written from. -/
structure ReadsBack (keys : List String) (path : DataPath) : Prop where
  segments : path.segments = keys
  /-- It leads where the keys lead. -/
  leads : ∀ doc value, path.lookup doc = some value ↔ Leads doc keys value
  /-- It leads nowhere when some key is the first that leads nowhere. -/
  stops : ∀ doc, path.lookup doc = none
    ↔ ∃ front key back part, keys = front ++ key :: back ∧ Leads doc front part
      ∧ ∀ next, ¬ Leads part [key] next

theorem Spells.ne_nil (h : Spells keys text) : keys ≠ [] := by
  cases h <;> simp

/-- Keys that can be segments are read back from a data path, in whichever of the ways each of them
is written, and the path leads where they lead one by one. -/
theorem lookup_of_spells {keys : List String} {text : String} (h : Spells keys text)
    (hkeys : ∀ key ∈ keys, IsSegment key) : ReadsBack keys (parse text) := by
  have hsegments := segments_parse_of_spells h hkeys
  have hlookup : ∀ doc, (parse text).lookup doc = follow doc keys := by
    intro doc
    rw [lookup, hsegments, if_neg (by simpa using h.ne_nil)]
  refine ⟨hsegments, ?_, ?_⟩
  · intro doc value
    rw [hlookup]
    exact follow_eq_some_iff
  · intro doc
    rw [hlookup]
    exact follow_eq_none_iff

/-- Keys with what ends other keys in them: an opening bracket in a bare key, closing brackets and
the other quote in quoted ones. -/
def mixedKeys : List String := ["x y", "a[b", "]'[", "0", "say \"[hi]\"", "it's"]

def mixedPath : String := "x y[ a[b\t][\"]'[\"].0[  'say \"[hi]\"' ].it's"

theorem spells_mixedPath : Spells mixedKeys mixedPath := by
  have hopen : SpellsBracket "a[b" ("[" ++ " " ++ "a[b" ++ "\t" ++ "]") :=
    .bare (by simp) (by simp [isQuote]) (by simp; decide) (by simp; decide)
  have hclosing : SpellsBracket "]'[" ("[" ++ "" ++ marked '"' "]'[" ++ "" ++ "]") :=
    .quoted rfl (by simp) (by simp) (by simp)
  have hsaid : SpellsBracket "say \"[hi]\""
      ("[" ++ "  " ++ marked '\'' "say \"[hi]\"" ++ " " ++ "]") :=
    .quoted rfl (by simp) (by simp; decide) (by simp; decide)
  have hfirst : Spells ["x y"] "x y" := .name (by simp)
  exact .append_name (.append_bracket (.append_name (.append_bracket (.append_bracket hfirst hopen)
    hclosing) (by simp)) hsaid) (by simp)

theorem isSegment_mixedKeys : ∀ key ∈ mixedKeys, IsSegment key := by
  intro key hkey
  simp only [mixedKeys, List.mem_cons, List.not_mem_nil, or_false] at hkey
  rcases hkey with rfl | rfl | rfl | rfl | rfl | rfl <;> exact ⟨by simp, by rfl, by simp⟩

/-- A document that the keys lead into, with an array on their way. -/
def mixedDocument : Json :=
  .object [("x y", .object [("a[b", .object [("]'[",
    .array [.object [("say \"[hi]\"", .object [("it's", .bool true)])]])])])]

/-- Every way to write a key in one path, and all the keys read back. -/
theorem lookup_of_spells_mixedPath : Spells mixedKeys mixedPath
    ∧ (∀ key ∈ mixedKeys, IsSegment key) ∧ ReadsBack mixedKeys (parse mixedPath)
    ∧ (parse mixedPath).lookup mixedDocument = some (.bool true) := by
  have hreads := lookup_of_spells spells_mixedPath isSegment_mixedKeys
  have hleads : Leads mixedDocument mixedKeys (.bool true) :=
    .member rfl (.member rfl (.member rfl (.item rfl rfl (.member rfl (.member rfl (.here _))))))
  exact ⟨spells_mixedPath, isSegment_mixedKeys, hreads, (hreads.leads _ _).mpr hleads⟩

/-! ### One key in quotes -/

/-- Segments are keys that can be segments. -/
theorem isSegment_of_mem_segmentsOf (h : key ∈ segmentsOf cs) : IsSegment (String.ofList key) := by
  obtain ⟨hmem, hne⟩ := List.mem_filter.mp h
  obtain ⟨piece, hpiece, rfl⟩ := List.mem_map.mp hmem
  refine ⟨by simpa using hne, ?_, ?_⟩
  · rw [Text.trim, String.toList_ofList, trimChars_trimChars]
  · intro hpoint
    rw [String.toList_ofList] at hpoint
    exact not_mem_of_mem_pieces hpiece ((trimChars_sublist piece).subset hpoint)

/-- What a quoted bracket is read as depends on whether the key in it can be a segment. -/
structure ReadsQuoted (key : String) (path : DataPath) : Prop where
  /-- The text between the quotes is cut like any other. -/
  segments : path.segments = (segmentsOf key.toList).map String.ofList
  /-- A key that can be a segment is looked up as it is. -/
  reached : IsSegment key → ∀ members, path.lookup (.object members) = Entries.find? members key
  /-- Any other key is missed even where it is the only one. -/
  missed : ¬ IsSegment key → ∀ value, path.lookup (.object [(key, value)]) = none

theorem segments_parse_quoted (hquote : isQuote quote = true) (hname : quote ∉ name.toList)
    (hopened : ∀ c ∈ opened.toList, isBlank c = true)
    (hclosed : ∀ c ∈ closed.toList, isBlank c = true) :
    (parse ("[" ++ opened ++ marked quote name ++ closed ++ "]")).segments
      = (segmentsOf name.toList).map String.ofList := by
  have hends := ends_of_spellsBracket (.quoted hquote hname hopened hclosed)
  have hpoint := withoutBrackets_quoted hquote hname hopened hclosed []
  rw [List.append_nil, withoutBrackets.eq_def [], List.append_nil] at hpoint
  rw [parse, hends.2, hpoint, segmentsOf_point_cons]

/-- Where a text is the only key and no segment, its segments lead nowhere. -/
theorem lookup_singleton_eq_none {path : DataPath}
    (hsegments : path.segments = (segmentsOf name.toList).map String.ofList)
    (hname : ¬ IsSegment name) (value : Json) : path.lookup (.object [(name, value)]) = none := by
  rw [lookup, hsegments]
  cases hfirst : segmentsOf name.toList with
  | nil => rfl
  | cons first others =>
    have hsegment : IsSegment (String.ofList first) :=
      isSegment_of_mem_segmentsOf (hfirst ▸ List.mem_cons_self)
    have hne : name ≠ String.ofList first := fun h => hname (h ▸ hsegment)
    simp [follow, step?, Entries.find?, hne]

/-- A data path that is one bracket with a key in quotes, blanks around the quotes, reaches the keys
that can be a segment, and no others. -/
theorem quoted_bracket_reaches {key before after : String} {quote : Char}
    (hquote : isQuote quote = true) (hkey : quote ∉ key.toList)
    (hbefore : ∀ c ∈ before.toList, isBlank c = true)
    (hafter : ∀ c ∈ after.toList, isBlank c = true) :
    ReadsQuoted key (parse ("[" ++ before ++ marked quote key ++ after ++ "]")) := by
  have hsegments := segments_parse_quoted hquote hkey hbefore hafter
  refine ⟨hsegments, ?_, lookup_singleton_eq_none hsegments⟩
  intro hsegment members
  rw [lookup, hsegments, hsegment.segmentsOf_toList]
  simp [follow, step?]

/-- A key with brackets and the other quote in it is reached, one with a point is missed. -/
theorem quoted_bracket_reaches_brackets : isQuote '\'' = true ∧ '\'' ∉ "x [\"y\"]".toList
    ∧ '\'' ∉ "a.b".toList ∧ (∀ c ∈ " \t".toList, isBlank c = true)
    ∧ (∀ c ∈ "".toList, isBlank c = true)
    ∧ ReadsQuoted "x [\"y\"]" (parse "[ \t'x [\"y\"]']") ∧ ReadsQuoted "a.b" (parse "[ \t'a.b']")
    ∧ (parse "[ \t'x [\"y\"]']").lookup (.object [("x", .null), ("x [\"y\"]", .bool true)])
      = some (.bool true)
    ∧ (parse "[ \t'a.b']").lookup (.object [("a.b", .bool true)]) = none := by
  have hblank : ∀ c ∈ " \t".toList, isBlank c = true := by
    simp
    decide
  have hnone : ∀ c ∈ "".toList, isBlank c = true := by simp
  have hbrackets : '\'' ∉ "x [\"y\"]".toList := by simp
  have hpoint : '\'' ∉ "a.b".toList := by simp
  have htext : "[" ++ " \t" ++ marked '\'' "x [\"y\"]" ++ "" ++ "]" = "[ \t'x [\"y\"]']" := by
    simp [marked]
  have htext' : "[" ++ " \t" ++ marked '\'' "a.b" ++ "" ++ "]" = "[ \t'a.b']" := by simp [marked]
  have hreached := quoted_bracket_reaches rfl hbrackets hblank hnone
  have hmissed := quoted_bracket_reaches rfl hpoint hblank hnone
  rw [htext] at hreached
  rw [htext'] at hmissed
  have hsegment : IsSegment "x [\"y\"]" := ⟨by simp, by rfl, by simp⟩
  refine ⟨rfl, hbrackets, hpoint, hblank, hnone, hreached, hmissed, ?_, ?_⟩
  · rw [hreached.reached hsegment]
    simp [Entries.find?]
  · exact hmissed.missed (fun h => h.point (by simp)) _

/-- A quoted bracket misses keys with a point in them or a blank at an end, and the empty key. -/
theorem quoted_bracket_misses :
    ¬ (∀ (members : Entries Json) (key : String) (value : Json) (quote : Char),
        Entries.find? members key = some value → isQuote quote = true → quote ∉ key.toList →
        (parse ("[" ++ marked quote key ++ "]")).lookup (.object members) = some value)
    ∧ (parse "[\"a.b\"]").lookup (.object [("a.b", .bool true)]) = none
    ∧ (parse "[\" a\"]").lookup (.object [(" a", .bool true)]) = none
    ∧ (parse "['']").lookup (.object [("", .bool true)]) = none := by
  have hpoint : (parse "[\"a.b\"]").lookup (.object [("a.b", .bool true)]) = none := by cbv
  refine ⟨?_, hpoint, by cbv, by cbv⟩
  intro hall
  have hlookup : (parse "[\"a.b\"]").lookup (.object [("a.b", .bool true)]) = some (.bool true) :=
    hall [("a.b", .bool true)] "a.b" (.bool true) '"' rfl rfl (by simp)
  simp [hpoint] at hlookup

end DocTemplate.DataPath
