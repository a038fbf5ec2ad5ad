/-
Running some of the stages that remain.

A helper may run the first of the stages behind its own, as many as a count says.  A count
beyond the stages that there are means all of them, unless the stop is lost on the way to the
clipping: the sum of the place and the count comes first, and where it is no word there is a
panic.

* `Binding.runFirst` — the first of the remaining stages, for which no sum is needed;
* `Binding.runRemaining_clips` — what is run as long as the sum is a word, and what if not;
* `Binding.runRemaining_overflows` — the greatest count does not run all that remains.
-/
import DocTemplate.Proofs.Evaluation

namespace DocTemplate.Binding

open DocTemplate.Text

variable {env : Environment} {b : Binding} {stop cursor : Nat}

/-! ### Places -/

theorem behind_le (stop cursor : Nat) : behind stop cursor ≤ stop := Nat.min_le_right _ _

/-! ### The first of the remaining stages -/

/-- Let somebody run the first of the stages behind a cursor, as many as there are up to some
count. -/
def runFirst (env : Environment) (b : Binding) (stop cursor : Nat) (runner : Runner)
    (count : Nat) (input : Json) : Run Json :=
  let start := behind stop cursor
  b.runRange { env with runner } start (start + min count (b.slice start stop).length) input

theorem runFirst_eq (hstop : stop ≤ b.stages.length) (env : Environment) (cursor : Nat)
    (runner : Runner) (count : Nat) (input : Json) :
    b.runFirst env stop cursor runner count input
      = b.runFrom { env with runner } (min (behind stop cursor + count) stop) (behind stop cursor)
          input := by
  have hbehind := behind_le stop cursor
  rw [runFirst, runRange, length_slice b _ _ hstop]
  congr 1
  omega

/-- What a helper runs of the stages that remain.  As long as the place and the count add up to
a word, these are the first ones, as many as the count says, and all of them if there are no
more than that; otherwise nothing is run, and there is a panic. -/
theorem runRemaining_clips (env : Environment) (b : Binding) {stop : Nat}
    (hstop : stop ≤ b.stages.length) (cursor : Nat) (runner : Runner) (count : Nat)
    (input : Json) :
    let ctx := b.contextAt env stop cursor (b.runRemaining env stop cursor)
    let start := behind stop cursor
    (start + count < Word.bound →
        ctx.runRemaining runner count input
          = Ending.ofRun (b.runFirst env stop cursor runner count input))
      ∧ (Word.bound ≤ start + count → ctx.runRemaining runner count input = overflow)
      ∧ b.slice start (start + min count ctx.remaining.length) = ctx.remaining.take count
      ∧ (ctx.remaining.length ≤ count →
        b.runFirst env stop cursor runner count input
          = b.runFrom { env with runner } stop start input) := by
  intro ctx start
  have hstart : start ≤ stop := behind_le stop cursor
  have hlength : ctx.remaining.length = stop - start := length_slice b _ _ hstop
  refine ⟨?_, ?_, ?_, ?_⟩
  · intro hword
    rw [runFirst_eq hstop]
    exact runRemaining_of_lt hword env b runner input
  · intro hoverflow
    exact runRemaining_of_le hoverflow env b runner input
  · show _ = (b.slice start stop).take count
    rw [take_slice, hlength]
    congr 1
    omega
  · intro hall
    rw [runFirst_eq hstop, Nat.min_eq_right (by omega)]

/-- Two stages, of which the second gives another value. -/
def twoStages : Binding where
  path := [.name "a"]
  expression := ""
  stages := [.literal (.bool true), .literal .null]

theorem result_runFirst_twoStages {count : Nat} (h : 0 < count) :
    (twoStages.runFirst steeredEnvironment 2 0 .task count (.bool false)).result = .ok .null := by
  have hlength : 2 ≤ twoStages.stages.length := by decide
  have hstop : min (behind 2 0 + count) 2 = 2 := by
    rw [Nat.min_eq_right]
    simp only [behind]
    omega
  rw [runFirst_eq hlength, hstop]
  cbv

/-- One stage remains and five are asked for. -/
theorem runRemaining_clips_twoStages :
    2 ≤ twoStages.stages.length ∧ behind 2 0 + 5 < Word.bound
      ∧ ((twoStages.contextAt steeredEnvironment 2 0
          (twoStages.runRemaining steeredEnvironment 2 0)).runRemaining .task 5
            (.bool false)).value = .value .null := by
  have hstop : 2 ≤ twoStages.stages.length := by decide
  have hword : behind 2 0 + 5 < Word.bound := by decide
  have hclips := (runRemaining_clips steeredEnvironment twoStages hstop 0 .task 5 (.bool false)).1
  refine ⟨hstop, hword, ?_⟩
  rw [hclips hword, Ending.value_ofRun, result_runFirst_twoStages (by decide)]
  rfl

/-- Not every count that is a word is clipped: with the greatest one there is a panic. -/
theorem runRemaining_overflows :
    ¬ ∀ (env : Environment) (b : Binding) (stop cursor : Nat) (runner : Runner) (count : Nat)
        (input : Json), stop ≤ b.stages.length → count < Word.bound →
      (b.contextAt env stop cursor (b.runRemaining env stop cursor)).runRemaining runner count input
        = Ending.ofRun (b.runFirst env stop cursor runner count input) := by
  intro h
  have heq := congrArg Timed.value (h steeredEnvironment twoStages 2 0 .task Word.greatest
    (.bool false) (by decide) (by decide))
  have hpanics := runRemaining_of_le (show Word.bound ≤ behind 2 0 + Word.greatest by decide)
    steeredEnvironment twoStages .task (.bool false)
  have hruns : (twoStages.runRemaining steeredEnvironment 2 0 .task Word.greatest
      (.bool false)).value = .value .null := by
    refine heq.trans ?_
    rw [Ending.value_ofRun, result_runFirst_twoStages (by decide)]
    rfl
  rw [hpanics] at hruns
  simp [overflow] at hruns

end DocTemplate.Binding
