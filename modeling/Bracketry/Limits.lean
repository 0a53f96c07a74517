import Bracketry.Error

/-!
# Limits of a scan

A scan is bounded by how deep tags may nest and by how many tokens may be
admitted. Both bounds are inclusive.
-/

namespace Bracketry

/-- The bounds of one scan. -/
structure Limits where
  /-- How deep content may be delegated to nested tokens. -/
  depth : Nat
  /-- How many tokens may be admitted. -/
  tokens : Nat
  deriving DecidableEq, Repr

namespace Limits

/-- The largest number that fits in 64 bits; as a bound it stands for none. -/
def unbounded : Nat := 18446744073709551615

def default : Limits := ⟨128, unbounded⟩

/-- Lifts the bound on the depth. -/
def anyDepth (l : Limits) : Limits := ⟨unbounded, l.tokens⟩

/-- Admits one more token next to `held` others: the new number of tokens, or
the bound that it exceeds. The count stops at `unbounded`. -/
def grant (l : Limits) (held : Nat) : Except Error Nat :=
  if l.tokens < min (held + 1) unbounded then
    .error (.tooMany (min (held + 1) unbounded) l.tokens)
  else .ok (held + 1)

end Limits

/-- How deep a scan has delegated. -/
structure Gauge where
  depth : Nat
  deriving DecidableEq, Repr

namespace Gauge

def start : Gauge := ⟨0⟩

def enter (g : Gauge) : Gauge := ⟨g.depth + 1⟩

def exit (g : Gauge) : Gauge := ⟨g.depth - 1⟩

/-- Fails beyond the given depth. -/
def check (g : Gauge) (limit : Nat) : Except Error Unit :=
  if limit < g.depth then .error (.tooDeep g.depth limit) else .ok ()

theorem check_eq_ok {g : Gauge} {limit : Nat} (h : g.check limit = .ok ()) : g.depth ≤ limit := by
  unfold check at h
  split at h
  · cases h
  · omega

/-- One level deeper, a bound that still holds is closer. -/
theorem room_enter {g : Gauge} {limit : Nat} (h : g.enter.check limit = .ok ()) :
    limit - g.enter.depth < limit - g.depth := by
  have := check_eq_ok h
  simp only [enter] at this ⊢
  omega

end Gauge

end Bracketry
