import Bracketry.Taxonomy

/-!
# Selectors

A selector picks kinds through the hierarchy: a kind is picked along with every
kind that extends it.
-/

namespace Bracketry

inductive Selector (K : Type)
  /-- A kind or one that extends it. -/
  | kind (kind : K)
  /-- Any of some kinds or one that extends them. -/
  | anyOf (kinds : List K)

namespace Selector

variable {K : Type} [DecidableEq K] [Taxonomy K]

/-- Selects by the name of a kind. -/
def named (name : String) : Except Error (Selector K) := .kind <$> Taxonomy.resolve name

/-- Selects by the names of kinds; the first unknown one is the error. -/
def anyNamed (names : List String) : Except Error (Selector K) :=
  .anyOf <$> names.mapM Taxonomy.resolve

def picks (s : Selector K) (k : K) : Bool :=
  match s with
  | .kind a => Taxonomy.isA k a
  | .anyOf as => as.any (Taxonomy.isA k)

end Selector

end Bracketry
