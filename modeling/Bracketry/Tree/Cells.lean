import Bracketry.Tree.Node

/-!
# Nodes made on first access

A tree keeps one cell for each token. The node of a token is made when it is first asked for, by
a reader or by a caller who configures it, and put into the cell. Inside, it has a cell for its
children, which are computed when they are first asked for. Until then a cell is empty, and what
is in the cells depends on who asked for what.

* `Cells.node`, `Cells.children`, `Cells.configure`: what touches the cells, in place.
-/

namespace Bracketry

variable {K : Type}

/-- A node that was made. Its children are there once they were computed. -/
structure MadeNode (K : Type) where
  kind : K
  constraints : Option (Constraints K)
  children : Option (List Nat)

/-- A tree with a cell for each node; `strict` says which kinds are strict. -/
structure Cells (K : Type) where
  tokens : TokenTree K
  strict : K → Option (Constraints K)
  nodes : Array (Option (MadeNode K))

namespace Cells

/-- No node is made yet. -/
def fresh (strict : K → Option (Constraints K)) (tokens : TokenTree K) : Cells K :=
  ⟨tokens, strict, Array.replicate tokens.size none⟩

/-- A node as it is made. There is none for a number that no token has. -/
def create (c : Cells K) (id : Nat) : Option (MadeNode K) :=
  c.tokens.tokens[id]?.map fun token => ⟨token.kind, c.strict token.kind, none⟩

/-- Puts a node into its cell. -/
def put (c : Cells K) (id : Nat) (made : MadeNode K) : Cells K :=
  { c with nodes := c.nodes.setIfInBounds id (some made) }

/-- The node of a number, made on first access. Without a cell for it, this fails. -/
def node (id : Nat) : StateT (Cells K) Option (MadeNode K) := do
  let c ← get
  match ← c.nodes[id]? with
  | some made => return made
  | none =>
    let made ← c.create id
    set (c.put id made)
    return made

/-- The children that a token stands for: those of a group, else itself. -/
def held (tokens : TokenTree K) (target : Nat) : Option (List Nat) := do
  let token ← tokens.tokens[target]?
  return if token.isGroup then token.children else [target]

/-- Computes the children of a node from the tokens. -/
def compute (tokens : TokenTree K) (id : Nat) : Option (List Nat) := do
  let token ← tokens.tokens[id]?
  match token.level.bind Level.token with
  | some target => held tokens target
  | none => if token.isGroup then held tokens id else return []

/-- The children of a node, computed on first access. -/
def children (id : Nat) : StateT (Cells K) Option (List Nat) := do
  let made ← node id
  match made.children with
  | some ids => return ids
  | none =>
    let ids ← compute (← get).tokens id
    modify fun c => c.put id { made with children := some ids }
    return ids

/-- Changes the constraints of a node, which is made if it was not there. A number without a cell
is left alone. -/
def configure (id : Nat) (change : Option (Constraints K) → Option (Constraints K)) :
    StateT (Cells K) Option Unit := do
  let c ← get
  match c.nodes[id]? with
  | none => return ()
  | some cell =>
    let made ← match cell with
      | some made => pure made
      | none => c.create id
    set (c.put id { made with constraints := change made.constraints })

end Cells

end Bracketry
