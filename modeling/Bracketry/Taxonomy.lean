import Bracketry.Error

/-!
# Kinds

A grammar has a closed set of kinds in single inheritance: each kind extends at
most one other, and going up ends. A kind is also of every kind it extends.
Kinds also compare with one another. A set of kinds is gone through in ascending
order, which need not be the order of declaration.

* `lineage_eq`: the way up from a kind, one step at a time.
* `isA_eq`: a kind is itself, and whatever its parent is.
-/

namespace Bracketry

/-- A finite hierarchy of named kinds. `height` is a rank that falls on the way
up, so no kind extends itself through its parents. -/
class Taxonomy (K : Type) [DecidableEq K] where
  /-- Every kind, in the order of declaration. -/
  all : List K
  mem_all : ∀ k, k ∈ all
  all_nodup : all.Nodup
  /-- Every kind, from the least to the greatest. -/
  ascending : List K := all
  ascending_perm : ascending.Perm all := by exact .refl _
  /-- The kind that a fresh set of constraints allows, if there is one. -/
  base : Option K
  name : K → String
  /-- The kind that a kind extends. -/
  parent : K → Option K
  height : K → Nat
  height_parent : ∀ k p, parent k = some p → height p < height k

namespace Taxonomy

variable {K : Type} [DecidableEq K] [Taxonomy K]

theorem mem_ascending (k : K) : k ∈ (ascending : List K) := ascending_perm.mem_iff.2 (mem_all k)

theorem ascending_nodup : (ascending : List K).Nodup := ascending_perm.nodup_iff.2 all_nodup

/-- The first kinds met on the way up, at most `n` above the start. -/
def climb : Nat → K → List K
  | 0, k => [k]
  | n + 1, k => k :: match parent k with
    | none => []
    | some p => climb n p

/-- A kind and all that it extends, nearest first. -/
def lineage (k : K) : List K := climb (height k) k

/-- Whether `k` is `a` or extends it. -/
def isA (k a : K) : Bool := decide (a ∈ lineage k)

/-- The kind of a given name. -/
def ofName? (s : String) : Option K := all.find? fun k : K => name k == s

/-- The kind of a given name, or the error that no kind has it. -/
def resolve (s : String) : Except Error K :=
  match ofName? s with
  | some k => .ok k
  | none => .error (.unknownKind s)

/-- Climbing further than the height of a kind meets nothing new. -/
theorem climb_eq {k : K} {n m : Nat} (hn : height k ≤ n) (hm : height k ≤ m) :
    climb n k = climb m k := by
  induction n generalizing k m with
  | zero =>
    cases m with
    | zero => rfl
    | succ m =>
      cases hp : parent k with
      | none => simp [climb, hp]
      | some p => have := height_parent k p hp; omega
  | succ n ih =>
    cases hp : parent k with
    | none => cases m <;> simp [climb, hp]
    | some p =>
      have := height_parent k p hp
      cases m with
      | zero => omega
      | succ m => simp only [climb, hp]; rw [ih (by omega) (by omega : height p ≤ m)]

theorem lineage_eq (k : K) :
    lineage k = k :: match parent k with
      | none => []
      | some p => lineage p := by
  unfold lineage
  cases hp : parent k with
  | none => cases height k <;> simp [climb, hp]
  | some p =>
    have := height_parent k p hp
    obtain ⟨h, hh⟩ : ∃ h, height k = h + 1 := ⟨height k - 1, by omega⟩
    simp only [hh, climb, hp]
    rw [climb_eq (by omega : height p ≤ h) (Nat.le_refl _)]

theorem isA_eq (k a : K) :
    isA k a = (a == k || match parent k with
      | none => false
      | some p => isA p a) := by
  unfold isA
  rw [lineage_eq k]
  cases parent k <;> simp [Bool.beq_eq_decide_eq]

end Taxonomy

end Bracketry
