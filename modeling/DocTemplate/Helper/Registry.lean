/-
Registries of helpers.

A registry has helpers of its own in front of the built-in ones.  Registries
are values: a copy goes its own way, and a helper found under one name can be
registered under another.

A family of registries grows by copies; its operations name the member they
work on.
-/
import DocTemplate.Helper.Collection

namespace DocTemplate

/-- Helpers by name, in front of the built-in ones. -/
structure Registry where
  own : Entries Helper

namespace Registry

/-- The registry with the built-in helpers alone. -/
def initial : Registry := ⟨[]⟩

/-- Register a helper under a name, in place of an earlier one. -/
def register (r : Registry) (name : String) (helper : Helper) : Registry :=
  ⟨r.own.put name helper⟩

/-- The helper under a name. -/
def find? (r : Registry) (name : String) : Option Helper :=
  (r.own.find? name).or (Helper.builtIn.find? name)

/-- Register the helper under one name under another as well, if there is one. -/
def alias? (r : Registry) (new old : String) : Option Registry :=
  (r.find? old).map fun helper => r.register new helper

/-- Whether there is a helper under a name. -/
def contains (r : Registry) (name : String) : Bool :=
  r.own.contains name || Helper.builtIn.contains name

/-- Whether the helper under a name is a built-in one. -/
def isBuiltIn (r : Registry) (name : String) : Bool :=
  !r.own.contains name && Helper.builtIn.contains name

/-- The names under which there are helpers, in ascending order. -/
def names (r : Registry) : List String :=
  (Helper.builtIn.foldl (fun es (name, h) => if es.contains name then es else es.put name h)
    r.own).keys

end Registry

/-- Registries by index. -/
abbrev Registry.Family := List Registry

namespace Registry.Family

/-- What can be done to a family of registries. -/
inductive Operation where
  /-- Register a helper under a name with a member. -/
  | register (member : Nat) (name : String) (helper : Helper)
  /-- Register the helper under one name under another as well, if there is one. -/
  | alias (member : Nat) (new old : String)
  /-- Add a copy of a member. -/
  | fork (member : Nat)

/-- The family of one registry, the initial one. -/
def initial : Family := [.initial]

/-- The family with a changed member. -/
def change (f : Family) (member : Nat) (g : Registry → Registry) : Family := f.modify member g

/-- Perform an operation; one on a member that is not there changes nothing. -/
def perform (f : Family) : Operation → Family
  | .register member name helper => f.change member (·.register name helper)
  | .alias member new old => f.change member fun r => (r.alias? new old).getD r
  | .fork member => f ++ f[member]?.toList

/-- Perform operations one after the other. -/
def performAll (f : Family) (ops : List Operation) : Family := ops.foldl perform f

end Registry.Family

end DocTemplate
