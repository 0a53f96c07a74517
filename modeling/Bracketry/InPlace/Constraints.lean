import Bracketry.InPlace
import Bracketry.Tree.Constraints

/-!
# Calls on a set of constraints

The calls that change a set of constraints, made in place. A set keeps two collections, the kinds
marked as allowed and the mandatory ones, and a call writes into one of them or into both.

* `Constraints.Call.write_eq`: **a call made in place does what the call of the set says,** and one
  that fails writes nothing.
-/

namespace Bracketry.Constraints

/-- The changes of a set of constraints. -/
inductive Change
  | allow
  | disallow
  | require
  | relax
  deriving DecidableEq, Repr

/-- A call on a set of constraints, for a kind or for the kind of a name. -/
structure Call (K : Type) where
  change : Change
  target : K ⊕ String

variable {K : Type} [DecidableEq K]

/-! ## The steps of a call -/

namespace Writes

def allow (kind : K) : InPlace (Constraints K) Unit := do
  modify fun c => { c with allowed := mark c.allowed kind true }

def disallow (kind : K) : InPlace (Constraints K) Unit := do
  modify fun c => { c with allowed := mark c.allowed kind false }
  modify fun c => { c with mandatory := mark c.mandatory kind false }

def require (kind : K) : InPlace (Constraints K) Unit := do
  allow kind
  modify fun c => { c with mandatory := mark c.mandatory kind true }

def relax (kind : K) : InPlace (Constraints K) Unit := do
  modify fun c => { c with mandatory := mark c.mandatory kind false }

end Writes

namespace Change

/-- A change of the set, made in place. -/
def write : Change → K → InPlace (Constraints K) Unit
  | .allow => Writes.allow
  | .disallow => Writes.disallow
  | .require => Writes.require
  | .relax => Writes.relax

/-- What a change makes of a set. -/
def made : Change → Constraints K → K → Constraints K
  | .allow => Constraints.allow
  | .disallow => Constraints.disallow
  | .require => Constraints.require
  | .relax => Constraints.relax

theorem write_eq (change : Change) (kind : K) (c : Constraints K) :
    change.write kind c = .ok () (change.made c kind) := by
  cases change <;> rfl

end Change

variable [Taxonomy K]

theorem byName_eq (change : Constraints K → K → Constraints K) (c : Constraints K) (name : String) :
    c.byName change name = (Taxonomy.resolve name).map (change c) := by
  unfold byName
  cases (Taxonomy.resolve name : Except Error K) <;> rfl

namespace Call

/-- What a call makes of a set. -/
def made (call : Call K) (c : Constraints K) : Except Error (Constraints K) :=
  match call.target with
  | .inl kind => .ok (call.change.made c kind)
  | .inr name => c.byName call.change.made name

/-- A call, made in place. -/
def write (call : Call K) : InPlace (Constraints K) Unit :=
  match call.target with
  | .inl kind => call.change.write kind
  | .inr name =>
    match Taxonomy.resolve name with
    | .ok kind => call.change.write kind
    | .error e => throw e

/-- **A call made in place does what the call of the set says,** and one that fails leaves the set
as it was. -/
theorem write_eq (call : Call K) (c : Constraints K) :
    call.write c = InPlace.outcome c (call.made c) := by
  obtain ⟨change, target⟩ := call
  cases target with
  | inl kind => exact change.write_eq kind c
  | inr name =>
    have hwrite : write ⟨change, .inr name⟩ = match (Taxonomy.resolve name : Except Error K) with
      | .ok kind => change.write kind
      | .error e => throw e := rfl
    have hmade : made ⟨change, .inr name⟩ c = (Taxonomy.resolve name).map (change.made c) :=
      byName_eq change.made c name
    rw [hwrite, hmade]
    cases (Taxonomy.resolve name : Except Error K) with
    | error e => rfl
    | ok kind => exact change.write_eq kind c

end Call

instance : Calls (Call K) (Constraints K) where
  write := Call.write
  made := Call.made
  write_eq := Call.write_eq

end Bracketry.Constraints
