import Bracketry.Taxonomy

/-!
# Constraints of a strict node

A strict node says which kinds its descendants may be of and which must be among
them. The last call on a kind decides about it. What is mandatory is allowed: a
requirement allows its kind, and disallowing a kind drops the requirement.
-/

namespace Bracketry

/-- The kinds marked as allowed and the mandatory ones. -/
structure Constraints (K : Type) where
  allowed : K → Bool
  mandatory : K → Bool

namespace Constraints

variable {K : Type} [DecidableEq K] [Taxonomy K]

/-- A set with one kind marked as given. -/
def mark (f : K → Bool) (kind : K) (on : Bool) : K → Bool := fun k => if k = kind then on else f k

/-- Only the base kind is allowed, so every kind that extends it is. -/
def fresh : Constraints K := ⟨fun k => Taxonomy.base == some k, fun _ => false⟩

def allow (c : Constraints K) (kind : K) : Constraints K :=
  { c with allowed := mark c.allowed kind true }

/-- Takes a kind off the allowed ones; it stops being mandatory as well. -/
def disallow (c : Constraints K) (kind : K) : Constraints K :=
  ⟨mark c.allowed kind false, mark c.mandatory kind false⟩

/-- Makes a kind mandatory, which allows it. -/
def require (c : Constraints K) (kind : K) : Constraints K :=
  ⟨mark c.allowed kind true, mark c.mandatory kind true⟩

/-- Drops the requirement of a kind, which stays allowed. -/
def relax (c : Constraints K) (kind : K) : Constraints K :=
  { c with mandatory := mark c.mandatory kind false }

/-- Changes a set for the kind of a name. -/
def byName (change : Constraints K → K → Constraints K) (c : Constraints K) (name : String) :
    Except Error (Constraints K) := do
  .ok (change c (← Taxonomy.resolve name))

/-- The kinds marked as allowed, in ascending order. -/
def allowedKinds (c : Constraints K) : List K := Taxonomy.ascending.filter c.allowed

/-- The mandatory kinds, in ascending order. -/
def mandatoryKinds (c : Constraints K) : List K := Taxonomy.ascending.filter c.mandatory

/-- Whether a descendant may be of a kind: it has to be of some allowed kind. -/
def allows (c : Constraints K) (kind : K) : Bool :=
  c.allowedKinds.any fun a => Taxonomy.isA kind a

end Constraints

end Bracketry
