import Bracketry.InPlace
import Bracketry.Ruleset

/-!
# Registering in place

Registering writes a rule into the row of a ruleset: it looks for the slot of the kind and overwrites
that, or it adds a slot at the end.

* `Ruleset.place_eq`: what `place` says is what the writing does.
* `Ruleset.write_eq`: **a registration made in place does what `register` says,** and one that
  fails writes nothing.
-/

namespace Bracketry.Ruleset

variable {K : Type} [DecidableEq K] [Taxonomy K]

/-- Writes a rule into the slot of its kind, or into a new one at the end. -/
def store (rule : Rule K) : InPlace (Ruleset K) Unit := do
  match (← get).rules.findIdx? fun r => r.kind = rule.kind with
  | some index => modify fun s => { s with rules := s.rules.set index rule }
  | none => modify fun s => { s with rules := s.rules ++ [rule] }

/-- The error of a rule for a kind that has none. -/
def reserved (kind : K) : Error :=
  .invalid "rule" ("`" ++ Taxonomy.name kind ++
    "` is reserved for untagged tokens and cannot have a tag rule")

/-- Registers a rule in place. -/
def write (rule : Rule K) : InPlace (Ruleset K) Unit := do
  let s ← get
  if rule.kind = s.literalKind ∨ rule.kind = s.groupKind then throw (reserved rule.kind)
  else store rule

omit [Taxonomy K] in
/-- A rule takes the slot of its kind, or a new one at the end. -/
theorem place_eq (rule : Rule K) (rules : List (Rule K)) :
    place rule rules = match rules.findIdx? fun r => r.kind = rule.kind with
      | some index => rules.set index rule
      | none => rules ++ [rule] := by
  induction rules with
  | nil => rfl
  | cons r rest ih =>
    unfold place
    rw [List.findIdx?_cons]
    by_cases hr : r.kind = rule.kind
    · simp [hr]
    · rw [if_neg hr, ih]
      cases rest.findIdx? fun r => r.kind = rule.kind <;> simp [hr]

omit [Taxonomy K] in
theorem store_eq (rule : Rule K) (s : Ruleset K) :
    store rule s = .ok () { s with rules := place rule s.rules } := by
  rw [place_eq]
  show (match s.rules.findIdx? fun r => r.kind = rule.kind with
    | some index => modify fun s : Ruleset K => { s with rules := s.rules.set index rule }
    | none => modify fun s => { s with rules := s.rules ++ [rule] } : InPlace (Ruleset K) Unit) s = _
  cases s.rules.findIdx? fun r => r.kind = rule.kind <;> rfl

/-- **A registration made in place does what `register` says,** and one that fails leaves the
ruleset as it was. -/
theorem write_eq (rule : Rule K) (s : Ruleset K) :
    write rule s = InPlace.outcome s (s.register rule) := by
  have hstore := store_eq rule s
  have hwrite : write rule s = (if rule.kind = s.literalKind ∨ rule.kind = s.groupKind
      then throw (reserved rule.kind) else store rule : InPlace (Ruleset K) Unit) s := rfl
  rw [hwrite]
  unfold register
  by_cases hreserved : rule.kind = s.literalKind ∨ rule.kind = s.groupKind
  · rw [if_pos hreserved, if_pos hreserved]
    rfl
  · rw [if_neg hreserved, if_neg hreserved, hstore]
    rfl

/-- A ruleset is called with the rules to register. -/
instance : Calls (Rule K) (Ruleset K) where
  write := write
  made := fun rule s => s.register rule
  write_eq := write_eq

end Bracketry.Ruleset
