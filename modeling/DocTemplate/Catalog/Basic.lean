/-
The catalogue of ready-made helpers.

Every helper of the catalogue has a kind, which is also its name when the whole
catalogue is registered.  Two kinds are only there on demand: `const`, which
gives a fixed value, and every kind that is not known, which fails.
-/
import DocTemplate.Catalog.Failures
import DocTemplate.Catalog.Steering
import DocTemplate.Helper.Registry

namespace DocTemplate.Catalog

/-- The milliseconds that the first argument writes, none of them otherwise. -/
def delayArg (args : List String) : Nat := (Text.Word.read? (firstArg args)).getD 0

/-- The helpers that take time. -/
def delayed : List (String × Helper) :=
  [("delay", .ofDelayed delayArg fun _ v => .ok v),
    ("slow_double", .ofDelayed delayArg fun _ v => double v)]

/-- All helpers of the catalogue, by kind. -/
def all : List (String × Helper) := values ++ failures ++ delayed ++ steering

/-- Give a fixed value. -/
def const (value : Json) : Helper := .ofFunction fun _ _ => .ok value

/-- Fail because the kind is not known. -/
def unknown : Helper := .ofFunction fun _ _ => .error (.internal "unknown kind")

/-- The helper of a kind; a constant gives `value`. -/
def ofKind (kind : String) (value : Json) : Helper :=
  if kind = "const" then const value else ((all.lookup kind).getD unknown)

/-- A registry with the whole catalogue. -/
def registry : Registry := all.foldl (fun r (name, helper) => r.register name helper) .initial

/-- What a registry finds among its own was there before, or has been registered since. -/
theorem find?_own_foldl_register {entries : List (String × Helper)} {r : Registry} {name : String}
    {helper : Helper}
    (h : (entries.foldl (fun r (name, helper) => r.register name helper) r).own.find? name
      = some helper) :
    r.own.find? name = some helper ∨ ∃ entry ∈ entries, entry.2 = helper := by
  induction entries generalizing r with
  | nil => exact .inl h
  | cons entry entries ih =>
    rcases ih (r := r.register entry.1 entry.2) h with hfind | ⟨entry, hentry, rfl⟩
    · rw [Registry.register, Entries.find?_put] at hfind
      split at hfind
      · exact .inr ⟨entry, List.mem_cons_self, Option.some.inj hfind⟩
      · exact .inl hfind
    · exact .inr ⟨entry, List.mem_cons_of_mem _ hentry, rfl⟩

theorem exists_mem_all {name : String} {helper : Helper}
    (h : registry.own.find? name = some helper) : ∃ entry ∈ all, entry.2 = helper := by
  rcases find?_own_foldl_register h with hfind | hentry
  · simp [Registry.initial] at hfind
  · exact hentry

end DocTemplate.Catalog
