/-
Finding a character.

`upTo c cs` is the text before the first occurrence of a character and the
text behind it; `upTo_eq_some_iff` says exactly that.
-/
namespace DocTemplate.Text

/-- The text before the first occurrence of a character and the text behind it. -/
def upTo (c : Char) : List Char → Option (List Char × List Char)
  | [] => none
  | d :: cs => if d = c then some ([], cs) else (upTo c cs).map fun (a, b) => (d :: a, b)

theorem upTo_eq_some_iff {c : Char} {cs before after : List Char} :
    upTo c cs = some (before, after) ↔ cs = before ++ c :: after ∧ c ∉ before := by
  induction cs generalizing before with
  | nil => simp [upTo]
  | cons d cs ih =>
    unfold upTo
    split
    next h =>
      subst h
      cases before with
      | nil => simp
      | cons x xs =>
        simp only [List.cons_append, List.cons.injEq, List.mem_cons, not_or]
        constructor
        · intro h; simp at h
        · rintro ⟨⟨rfl, _⟩, hx, _⟩; exact absurd rfl hx
    next h =>
      simp only [Option.map_eq_some_iff, Prod.mk.injEq, Prod.exists]
      constructor
      · rintro ⟨a, b, hab, rfl, rfl⟩
        obtain ⟨rfl, hn⟩ := ih.mp hab
        exact ⟨rfl, by simp [hn, Ne.symm h]⟩
      · rintro ⟨heq, hn⟩
        cases before with
        | nil => simp at heq; exact absurd heq.1 h
        | cons x xs =>
          simp only [List.cons_append, List.cons.injEq] at heq
          obtain ⟨rfl, rfl⟩ := heq
          exact ⟨xs, after, ih.mpr ⟨rfl, fun hx => hn (List.mem_cons_of_mem _ hx)⟩, rfl, rfl⟩

theorem upTo_eq_none_iff {c : Char} {cs : List Char} : upTo c cs = none ↔ c ∉ cs := by
  induction cs with
  | nil => simp [upTo]
  | cons d cs ih =>
    unfold upTo
    split
    next h => simp [h]
    next h => simp [ih, Ne.symm h]

theorem upTo_length {c : Char} {cs before after : List Char}
    (h : upTo c cs = some (before, after)) : after.length < cs.length := by
  obtain ⟨rfl, _⟩ := upTo_eq_some_iff.mp h
  simp
  omega

end DocTemplate.Text
