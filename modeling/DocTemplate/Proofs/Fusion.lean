/-
Two maps in one.

A `map` whose results are collected only to be mapped again runs its stages for the elements
in two batches, first the stages in front of the boundary and then those behind the second
`map`.  A single `map` over both gives the same collection when the first stages hand their
values on: then running the second stages on what the first ones give is running all of them.
Behind the second stages comes the same boundary, if there is one.

* `Json.mapElements?_bind` — a collection that is mapped twice;
* `Environment.gives?_append` — stages that hand their values on, and others behind them;
* `Environment.gives?_map` — a `map`, by what the stages behind it give;
* `Binding.runRange_fusion` — two maps and one map;
* `Binding.runRange_fusion_overflows` — a count that can be added to one place and not to another.
-/
import DocTemplate.Proofs.Relocation

namespace DocTemplate

open DocTemplate.Text

/-! ### Collections -/

theorem mapM_bind_mapM {α β γ : Type} (f : α → Option β) (g : β → Option γ) (xs : List α) :
    (xs.mapM f).bind (List.mapM g) = xs.mapM fun x => (f x).bind g := by
  induction xs with
  | nil => rfl
  | cons x xs ih =>
    rw [List.mapM_cons, List.mapM_cons, ← ih]
    cases f x with
    | none => rfl
    | some y =>
      cases xs.mapM f with
      -- The one list fails behind `x`, and the other there or at `x` already.
      | none =>
        show none = (g y).bind fun _ => none
        cases g y <;> rfl
      | some ys => exact List.mapM_cons

/-- What is done to the elements of a collection one thing after the other can be done at
once. -/
theorem Json.mapElements?_bind (f g : Json → Option Json) (input : Json) :
    (input.mapElements? f).bind (Json.mapElements? g)
      = input.mapElements? fun element => (f element).bind g := by
  cases input with
  | array items =>
    have hitems := mapM_bind_mapM f g items
    simp only [mapElements?, ← hitems]
    cases items.mapM f <;> rfl
  | object members =>
    have hmembers := mapM_bind_mapM
      (fun (member : String × Json) => (f member.2).map (member.1, ·))
      (fun (member : String × Json) => (g member.2).map (member.1, ·)) members
    have hmember (member : String × Json) :
        ((f member.2).map (member.1, ·)).bind (fun member => (g member.2).map (member.1, ·))
          = ((f member.2).bind g).map (member.1, ·) := by
      cases f member.2 <;> rfl
    simp only [hmember] at hmembers
    simp only [mapElements?, ← hmembers]
    cases members.mapM fun (member : String × Json) => (f member.2).map (member.1, ·) <;> rfl
  | null | bool | number | string => rfl

/-! ### What stages give -/

/-- The stage calls no helper that could tell at which place it stands. -/
def Stage.Movable (env : Environment) (limit : Nat) (stage : Stage) : Prop :=
  ∀ name args helper, stage = .call name args → env.helper? name = some helper →
    helper.Movable limit args

theorem Stage.HandsOn.movable {env : Environment} {stage : Stage} (h : stage.HandsOn env)
    (limit : Nat) : stage.Movable env limit :=
  fun name args helper hcall hfind => (h name args helper hcall hfind).movable limit args

theorem Stage.handsOn_call {env : Environment} {name : String} {helper : Helper}
    (hfind : env.helper? name = some helper) (h : helper.HandsOn) (args : List String) :
    (Stage.call name args).HandsOn env := by
  intro name' args' helper' hcall hfind'
  cases hcall
  obtain rfl := Option.some.inj (hfind.symm.trans hfind')
  exact h

namespace Environment

variable {env : Environment} {limit : Nat} {stages : List Stage}

theorem forall_movable_call {name : String} {helper : Helper} {args : List String}
    (hfind : env.helper? name = some helper) (h : helper.Movable limit args)
    (hstages : ∀ stage ∈ stages, stage.Movable env limit) :
    ∀ stage ∈ Stage.call name args :: stages, stage.Movable env limit := by
  refine List.forall_mem_cons.mpr ⟨?_, hstages⟩
  intro name' args' helper' hcall hfind'
  cases hcall
  obtain rfl := Option.some.inj (hfind.symm.trans hfind')
  exact h

theorem forall_movable_map (hmap : env.helper? "map" = some Helper.map)
    (hstages : ∀ stage ∈ stages, stage.Movable env limit) (args : List String) :
    ∀ stage ∈ Stage.call "map" args :: stages, stage.Movable env limit :=
  forall_movable_call hmap (Helper.movable_map limit args) hstages

theorem forall_movable_passOn {name : String} (hpassOn : env.helper? name = some Helper.passOn)
    (hstages : ∀ stage ∈ stages, stage.Movable env limit) (args : List String) :
    ∀ stage ∈ Stage.call name args :: stages, stage.Movable env limit :=
  forall_movable_call hpassOn (Helper.handsOn_passOn.movable limit args) hstages

end Environment

namespace Environment

variable {env : Environment} {path : Path} {limit : Nat} {front rest : List Stage}

/-- What stages give under a path, if they do not fail. -/
def gives? (env : Environment) (path : Path) (stages : List Stage) (input : Json) : Option Json :=
  ((⟨path, "", stages⟩ : Binding).runFrom env stages.length 0 input).result.toOption

/-- What a part of a binding gives is for its own stages to say. -/
theorem toOption_runFrom_eq_gives? {b : Binding} {stop cursor : Nat}
    (hb : b.stages.length + limit < Word.bound) (hstop : stop ≤ b.stages.length)
    (hmovable : ∀ stage ∈ b.slice cursor stop, stage.Movable env limit) (input : Json) :
    (b.runFrom env stop cursor input).result.toOption
      = env.gives? b.path (b.slice cursor stop) input := by
  let part : Binding := ⟨b.path, "", b.slice cursor stop⟩
  have hlength : part.stages.length = stop - cursor := b.length_slice cursor stop hstop
  have hwhole : b.slice cursor stop = part.slice 0 part.stages.length := by
    show _ = part.stages.take part.stages.length
    rw [List.take_length]
  have hresembles := Binding.resembles_runFrom (show b.path = part.path from rfl) hb (by omega)
    hstop (Nat.le_refl _) hwhole
    (fun name args helper hcall => hmovable _ hcall name args helper rfl) input
  exact congrArg Except.toOption hresembles.result

/-- Stages that hand their values on, and others behind them. -/
theorem gives?_append (hlength : (front ++ rest).length + limit < Word.bound)
    (hfront : ∀ stage ∈ front, stage.HandsOn env)
    (hrest : ∀ stage ∈ rest, stage.Movable env limit) (input : Json) :
    env.gives? path (front ++ rest) input
      = (env.gives? path front input).bind (env.gives? path rest) := by
  -- The stop is moved from behind the first stages to behind all of them.
  let b : Binding := ⟨path, "", front ++ rest⟩
  have hle : front.length ≤ b.stages.length := by
    rw [show b.stages = front ++ rest from rfl, List.length_append]
    exact Nat.le_add_right _ _
  have hleft : b.slice 0 front.length = front := List.take_left
  have hright : b.slice front.length b.stages.length = rest := by
    rw [Binding.slice, List.take_length]
    exact List.drop_left
  have hreaches := Binding.exists_reaches (show b.stages.length < Word.bound by
      exact Nat.lt_of_le_of_lt (Nat.le_add_right _ _) hlength) (Nat.zero_le _) hle (Nat.le_refl _)
    (fun stage hstage => .inl (hfront stage (hleft ▸ hstage))) input
  obtain ⟨_, hreaches⟩ := hreaches
  have hresult := congrArg Except.toOption hreaches.result_eq
  rw [toOption_bind, toOption_runFrom_eq_gives? hlength hle
    (fun stage hstage => (hfront stage (hleft ▸ hstage)).movable limit), hleft] at hresult
  refine hresult.trans (congrArg _ (funext fun value => ?_))
  rw [toOption_runFrom_eq_gives? hlength (Nat.le_refl _)
    (fun stage hstage => hrest stage (hright ▸ hstage)), hright]

/-- A `map` runs the stages in front of the first boundary for the elements and those from
the boundary on for the collection. -/
theorem gives?_map (hmap : env.helper? "map" = some Helper.map)
    (hlength : rest.length + 1 + limit < Word.bound)
    (hrest : ∀ stage ∈ rest, stage.Movable env limit) (args : List String) (input : Json) :
    env.gives? path (.call "map" args :: rest) input
      = (input.mapElements? (gives? { env with runner := .task } path
          (rest.takeWhile (! Helper.isBoundary ·)))).bind
            (env.gives? path (rest.dropWhile (! Helper.isBoundary ·))) := by
  let b : Binding := ⟨path, "", .call "map" args :: rest⟩
  have hstages : b.stages.length = rest.length + 1 := rfl
  have hslice : b.slice 1 b.stages.length = rest := by
    rw [Binding.slice, List.take_length]
    rfl
  have hleft := Binding.slice_takeWhile (! Helper.isBoundary ·) 1 b.stages.length (Nat.le_refl _)
  have hright := b.slice_dropWhile (! Helper.isBoundary ·) 1 b.stages.length
  rw [hslice] at hleft hright
  have hcount : (rest.takeWhile (! Helper.isBoundary ·)).length ≤ rest.length :=
    (List.takeWhile_sublist _).length_le
  have hrun : env.gives? path (.call "map" args :: rest) input
      = (b.runFrom env b.stages.length 0 input).result.toOption := rfl
  rw [hrun, Binding.runFrom_eq (by omega) (show b.stages[0]? = some (.call "map" args) from rfl),
    Binding.toOption_map_bind hmap (by omega) (Nat.le_refl _) (by omega) args input
      (by rw [Nat.zero_add, hslice]), Nat.zero_add]
  congr 1
  · congr 1
    funext element
    rw [toOption_runFrom_eq_gives? (by omega) (by omega), hleft]
    intro stage hstage
    rw [hleft] at hstage
    exact hrest stage ((List.takeWhile_sublist _).mem hstage)
  · funext aggregate
    rw [toOption_runFrom_eq_gives? (by omega) (Nat.le_refl _), hright]
    intro stage hstage
    rw [hright] at hstage
    exact hrest stage ((List.dropWhile_sublist _).mem hstage)

/-- A helper that passes its input on, called before some stages. -/
theorem gives?_passOn {name : String} (hpassOn : env.helper? name = some Helper.passOn)
    (hlength : rest.length + 1 + limit < Word.bound)
    (hrest : ∀ stage ∈ rest, stage.Movable env limit) (args : List String) (input : Json) :
    env.gives? path (.call name args :: rest) input = env.gives? path rest input := by
  have hhands : ∀ stage ∈ [Stage.call name args], stage.HandsOn env :=
    List.forall_mem_singleton.mpr (Stage.handsOn_call hpassOn Helper.handsOn_passOn args)
  have hone : env.gives? path [.call name args] input = some input := by
    have hs : (⟨path, "", [.call name args]⟩ : Binding).stages[0]? = some (.call name args) := rfl
    show ((⟨path, "", [.call name args]⟩ : Binding).runFrom env 1 0 input).result.toOption = _
    rw [Binding.runFrom_eq Nat.zero_lt_one hs, Run.result_bind, Binding.result_perform_call,
      hpassOn]
    show (Binding.continueFrom env _ 1 0 (.next input)).result.toOption = _
    rw [Binding.result_continueFrom]
    simp only [Binding.runFrom_of_le (Nat.le_refl 1)]
    rfl
  have hwords : ([Stage.call name args] ++ rest).length + limit < Word.bound := by
    rw [List.singleton_append, List.length_cons]
    exact hlength
  rw [← List.singleton_append, gives?_append hwords hhands hrest, hone]
  rfl

/-- Two maps with a boundary between them that passes its input on, and one map. -/
theorem gives?_fusion {boundary : String} (hmap : env.helper? "map" = some Helper.map)
    (hboundary : boundary ∈ Helper.boundaryNames)
    (hpassOn : env.helper? boundary = some Helper.passOn)
    (hfront : ∀ stage ∈ front, stage.HandsOn env ∧ Helper.isBoundary stage = false)
    (hrest : ∀ stage ∈ rest, stage.Movable env limit)
    (hlength : front.length + rest.length + 3 + limit < Word.bound)
    (before between after single : List String) (input : Json) :
    env.gives? path
        (.call "map" before :: (front ++ .call boundary between :: .call "map" after :: rest)) input
      = env.gives? path (.call "map" single :: (front ++ rest)) input := by
  have hpass : ∀ stage ∈ front, (! Helper.isBoundary stage) = true := by
    intro stage hstage
    rw [(hfront stage hstage).2]
    rfl
  have hends : Helper.isBoundary (.call boundary between) = true := by
    simpa [Helper.isBoundary, Stage.helperName?] using hboundary
  have hmaps : ∀ stage ∈ front, stage.Movable env limit :=
    fun stage hstage => (hfront stage hstage).1.movable limit
  have hmapped := forall_movable_map hmap hrest after
  have hcollected := forall_movable_passOn hpassOn hmapped between
  have hfirst : (front ++ .call boundary between :: .call "map" after :: rest).takeWhile
      (! Helper.isBoundary ·) = front := by
    rw [List.takeWhile_append_of_pos hpass, List.takeWhile_cons, hends]
    exact List.append_nil front
  have hsecond : (front ++ .call boundary between :: .call "map" after :: rest).dropWhile
      (! Helper.isBoundary ·) = .call boundary between :: .call "map" after :: rest := by
    rw [List.dropWhile_append_of_pos hpass, List.dropWhile_cons, hends]
    rfl
  have hlengths : (front ++ .call boundary between :: .call "map" after :: rest).length + 1 + limit
      < Word.bound := by
    simp only [List.length_append, List.length_cons]
    omega
  have hlengths' : (front ++ rest).length + 1 + limit < Word.bound := by
    rw [List.length_append]
    omega
  -- The first `map` ends at the boundary that is there for it, the single one where the
  -- second `map` ends.
  rw [gives?_map hmap hlengths (List.forall_mem_append.mpr ⟨hmaps, hcollected⟩),
    gives?_map hmap hlengths' (List.forall_mem_append.mpr ⟨hmaps, hrest⟩), hfirst, hsecond,
    List.takeWhile_append_of_pos hpass, List.dropWhile_append_of_pos hpass]
  have hrest' : ∀ stage ∈ rest.takeWhile (! Helper.isBoundary ·),
      stage.Movable { env with runner := .task } limit :=
    fun stage hstage => hrest stage ((List.takeWhile_sublist _).mem hstage)
  have hwords : (front ++ rest.takeWhile (! Helper.isBoundary ·)).length + limit < Word.bound := by
    have hle : (rest.takeWhile (! Helper.isBoundary ·)).length ≤ rest.length :=
      (List.takeWhile_sublist _).length_le
    rw [List.length_append]
    omega
  have htasks : gives? { env with runner := .task } path
        (front ++ rest.takeWhile (! Helper.isBoundary ·))
      = fun element => (gives? { env with runner := .task } path front element).bind
          (gives? { env with runner := .task } path (rest.takeWhile (! Helper.isBoundary ·))) :=
    funext (gives?_append hwords (fun stage hstage => (hfront stage hstage).1) hrest')
  calc (input.mapElements? (gives? { env with runner := .task } path front)).bind
        (env.gives? path (.call boundary between :: .call "map" after :: rest))
      = (input.mapElements? (gives? { env with runner := .task } path front)).bind fun aggregate =>
          (aggregate.mapElements? (gives? { env with runner := .task } path
            (rest.takeWhile (! Helper.isBoundary ·)))).bind
              (env.gives? path (rest.dropWhile (! Helper.isBoundary ·))) := by
        congr 1
        funext aggregate
        rw [gives?_passOn hpassOn (by rw [List.length_cons]; omega) hmapped,
          gives?_map hmap (by omega) hrest]
    _ = ((input.mapElements? (gives? { env with runner := .task } path front)).bind
          (Json.mapElements? (gives? { env with runner := .task } path
            (rest.takeWhile (! Helper.isBoundary ·))))).bind
              (env.gives? path (rest.dropWhile (! Helper.isBoundary ·))) :=
        (Option.bind_assoc _ _ _).symm
    _ = _ := by
        rw [Json.mapElements?_bind, htasks]

end Environment

namespace Binding

variable {env : Environment} {b : Binding}

theorem toOption_runRange_eq_gives? {limit : Nat} {first last : Nat}
    (hb : b.stages.length + limit < Word.bound)
    (hmovable : ∀ stage ∈ b.slice first last, stage.Movable env limit) (input : Json) :
    (b.runRange env first last input).result.toOption
      = env.gives? b.path (b.slice first last) input := by
  have hslice : b.slice first (min last b.stages.length) = b.slice first last := by
    rw [slice, slice, ← List.take_eq_take_min]
  rw [runRange, Environment.toOption_runFrom_eq_gives? hb (Nat.min_le_right _ _)
    (hslice ▸ hmovable), hslice]

/-- A `map` whose results are collected and mapped again, and a single `map` over the stages
of both: the chains succeed for the same inputs, with the same values, wherever they stand in
two bindings with one path, and whatever follows the second `map`.  There are no more stages
than there are words, not even with as many added as a helper may ask for. -/
theorem runRange_fusion {limit : Nat} {boundary : String} {front rest : List Stage}
    (hmap : env.helper? "map" = some Helper.map) (hboundary : boundary ∈ Helper.boundaryNames)
    (hpassOn : env.helper? boundary = some Helper.passOn)
    (hfront : ∀ stage ∈ front, stage.HandsOn env ∧ Helper.isBoundary stage = false)
    (hrest : ∀ name args helper, .call name args ∈ rest → name ≠ "map" →
      env.helper? name = some helper → helper.Movable limit args)
    {b' : Binding} (hpath : b.path = b'.path) (hb : b.stages.length + limit < Word.bound)
    (hb' : b'.stages.length + limit < Word.bound) {first last first' last' : Nat}
    {before between after single : List String}
    (hslice : b.slice first last
      = .call "map" before :: (front ++ .call boundary between :: .call "map" after :: rest))
    (hslice' : b'.slice first' last' = .call "map" single :: (front ++ rest))
    (input value : Json) :
    (b.runRange env first last input).result = .ok value
      ↔ (b'.runRange env first' last' input).result = .ok value := by
  have hmovable : ∀ stage ∈ rest, stage.Movable env limit := by
    rintro stage hstage name args helper rfl hfind
    by_cases hname : name = "map"
    · subst hname
      obtain rfl := Option.some.inj (hmap.symm.trans hfind)
      exact Helper.movable_map limit args
    · exact hrest name args helper hstage hname hfind
  have hlength : front.length + rest.length + 3 ≤ b.stages.length := by
    have hsub : (b.slice first last).length ≤ b.stages.length :=
      ((List.drop_sublist _ _).trans (List.take_sublist _ _)).length_le
    rw [hslice] at hsub
    simp only [List.length_cons, List.length_append] at hsub
    omega
  have hmaps : ∀ stage ∈ front, stage.Movable env limit :=
    fun stage hstage => (hfront stage hstage).1.movable limit
  have htwo := Environment.forall_movable_map hmap (List.forall_mem_append.mpr ⟨hmaps,
    Environment.forall_movable_passOn hpassOn (Environment.forall_movable_map hmap hmovable after)
      between⟩) before
  have hone := Environment.forall_movable_map hmap
    (List.forall_mem_append.mpr ⟨hmaps, hmovable⟩) single
  rw [← hslice] at htwo
  rw [← hslice'] at hone
  rw [← toOption_eq_some_iff, ← toOption_eq_some_iff, toOption_runRange_eq_gives? hb htwo,
    toOption_runRange_eq_gives? hb' hone, hslice, hslice', ← hpath,
    Environment.gives?_fusion hmap hboundary hpassOn hfront hmovable (by omega)]

/-- Helpers of the catalogue, in front of the built-in ones. -/
def pairingEnvironment : Environment where
  runner := .foreground
  helper? := Catalog.registry.find?
  options := .null
  config := .standard
  observed := false
  partial? := fun _ => none

theorem map_pairingEnvironment : pairingEnvironment.helper? "map" = some Helper.map := by cbv

theorem collect_pairingEnvironment :
    pairingEnvironment.helper? "collect" = some Helper.passOn := by cbv

/-- A chain that collects what it has wrapped before it maps again. -/
def twoMaps : Binding where
  path := [.name "a"]
  expression := ""
  stages := [.call "map" [], .call "wrap" [], .call "collect" [], .call "map" [],
    .call "twice" ["1"], .data ⟨["0"]⟩, .call "reduce" [], .data ⟨["k"]⟩]

/-- The same with a single map, behind another stage. -/
def oneMap : Binding where
  path := [.name "a"]
  expression := ""
  stages := [.data ⟨["x"]⟩, .call "map" [], .call "wrap" [], .call "twice" ["1"], .data ⟨["0"]⟩,
    .call "reduce" [], .data ⟨["k"]⟩]

theorem runRange_fusion_twoMaps :
    pairingEnvironment.helper? "map" = some Helper.map
      ∧ pairingEnvironment.helper? "collect" = some Helper.passOn
      ∧ (oneMap.runRange pairingEnvironment 1 7 (.object [("j", .null), ("k", .bool true)])).result
        = .ok (.array [.bool true, .bool true])
      ∧ (twoMaps.runRange pairingEnvironment 0 8 (.object [("j", .null), ("k", .bool true)])).result
        = .ok (.array [.bool true, .bool true]) := by
  have hone : (oneMap.runRange pairingEnvironment 1 7
        (.object [("j", .null), ("k", .bool true)])).result
      = .ok (.array [.bool true, .bool true]) := by
    cbv
  refine ⟨map_pairingEnvironment, collect_pairingEnvironment, hone, ?_⟩
  have hfront : ∀ stage ∈ [Stage.call "wrap" []],
      stage.HandsOn pairingEnvironment ∧ Helper.isBoundary stage = false := by
    refine List.forall_mem_singleton.mpr ⟨?_, rfl⟩
    exact Stage.handsOn_call (by cbv) (Helper.handsOn_ofFunction fun _ v => .ok (Catalog.wrap v)) []
  have hrest : ∀ name args helper,
      .call name args
        ∈ [Stage.call "twice" ["1"], .data ⟨["0"]⟩, .call "reduce" [], .data ⟨["k"]⟩] →
      name ≠ "map" → pairingEnvironment.helper? name = some helper → helper.Movable 1 args := by
    intro name args helper hcall _ hfind
    refine Catalog.movable_find? hfind ?_
    intro count hcount
    simp only [List.mem_cons, Stage.call.injEq, reduceCtorEq, List.not_mem_nil, or_false,
      false_or] at hcall
    rcases hcall with ⟨-, rfl⟩ | ⟨-, rfl⟩
    · obtain rfl : 1 = count := Option.some.inj hcount
      exact Nat.le_refl 1
    · cases hcount
  exact (runRange_fusion map_pairingEnvironment (by decide) collect_pairingEnvironment hfront hrest
    (show twoMaps.path = oneMap.path from rfl) (by decide) (by decide)
    (show twoMaps.slice 0 8 = .call "map" [] :: (_ ++ .call "collect" [] :: .call "map" [] :: _)
      from rfl)
    (show oneMap.slice 1 7 = .call "map" [] :: (_ ++ _) from rfl) _ _).mpr hone

/-- Data whose elements are collected at once, and mapped again. -/
def boundlessTwoMaps : Binding where
  path := [.name "v"]
  expression := ""
  stages := [.data ⟨["xs"]⟩, .call "map" [], .call "collect" [], .call "map" [],
    .call "run" ["18446744073709551612"], .call "inc" []]

/-- The same with a single map. -/
def boundlessOneMap : Binding where
  path := [.name "v"]
  expression := ""
  stages := [.data ⟨["xs"]⟩, .call "map" [], .call "run" ["18446744073709551612"], .call "inc" []]

/-- Not all stages can be fused.  A helper that asks for nearly as many stages as there are words
panics behind two maps, where its place and the count do not add up to a word, and does not
behind one. -/
theorem runRange_fusion_overflows :
    pairingEnvironment.helper? "map" = some Helper.map
      ∧ pairingEnvironment.helper? "collect" = some Helper.passOn
      ∧ (boundlessTwoMaps.runRange pairingEnvironment 1 6 (.array [.number (.integer 1)])).result
        = .error (.panicked "v" "attempt to add with overflow")
      ∧ (boundlessOneMap.runRange pairingEnvironment 1 4 (.array [.number (.integer 1)])).result
        = .ok (.array [.number (.integer 3)]) := by
  refine ⟨map_pairingEnvironment, collect_pairingEnvironment, ?_, ?_⟩ <;> cbv

end Binding

end DocTemplate
