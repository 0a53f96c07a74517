import Bracketry.Tree.Node

/-!
# Checking a strict node

The descendants of a strict node are checked in pre-order. Each has to be of an
allowed kind and meets at most one mandatory kind, the least unmet one that it
is of. The check ends as soon as every mandatory kind is met, if there are any,
and descendants after that point are not looked at.
-/

namespace Bracketry

variable {K : Type} [DecidableEq K] [Taxonomy K]

namespace Constraints

/-- The mandatory kinds still unmet after a descendant of the given kind. -/
def meet (kind : K) (unmet : List K) : List K :=
  match unmet.find? (Taxonomy.isA kind) with
  | some met => unmet.erase met
  | none => unmet

/-- Checks descendants in order, with the mandatory kinds still unmet. -/
def checkFrom (c : Constraints K) (container : NodeInfo) (unmet : List K) :
    List (Node K) → Look (Except Error Unit)
  | [] =>
    pure (if unmet.isEmpty then .ok ()
      else .error (.missing container (unmet.map Taxonomy.name)))
  | child :: rest => do
    Look.ask child.id
    if c.allows child.kind then
      let unmet := meet child.kind unmet
      if !c.mandatoryKinds.isEmpty && unmet.isEmpty then pure (.ok ())
      else checkFrom c container unmet rest
    else pure (.error (.disallowed child.info container))

/-- Checks the descendants of a node. -/
def check (c : Constraints K) (node : Node K) : Look (Except Error Unit) := do
  Look.ask node.id
  c.checkFrom node.info c.mandatoryKinds node.below

end Constraints

/-- Checks a node against its own constraints, if it is strict. -/
def Node.check (n : Node K) : Look (Except Error Unit) :=
  match n.constraints with
  | some c => c.check n
  | none => pure (.ok ())

end Bracketry
