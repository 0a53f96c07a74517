import Bracketry.TokenTree
import Bracketry.Tree.Constraints
import Bracketry.Tree.Look

/-!
# Nodes

Every token of a token tree is seen as a node. The children of a node are read
off its token: a tag that delegated its content has the children of that level,
a group those it took in. They are computed when first asked for and kept.

* `NodeTree.project`: the children as the tokens give them.
* `NodeTree.after`: the tree after a look, with the children asked for kept.
* `Node.below`: everything below a node, in pre-order, by an explicit stack of
  siblings.
-/

namespace Bracketry

/-- What a node has beyond its token: its constraints, if it is strict, and its
children, once they were asked for. -/
structure NodeState (K : Type) where
  constraints : Option (Constraints K)
  children : Option (List Nat)

/-- The nodes of a token tree. -/
structure NodeTree (K : Type) where
  tokens : TokenTree K
  states : Array (NodeState K)

/-- One node of a tree. -/
structure Node (K : Type) where
  tree : NodeTree K
  id : Nat
  token : Token K

/-- What a node emits unless its grammar says otherwise. -/
structure Capture (K : Type) where
  kind : K
  text : String
  extra : Bindings
  children : List Nat

namespace NodeTree

variable {K : Type}

/-- The nodes of a token tree; `constraints` says which kinds are strict. -/
def ofTokens (constraints : K → Option (Constraints K)) (tokens : TokenTree K) : NodeTree K :=
  ⟨tokens, tokens.tokens.map fun t => ⟨constraints t.kind, none⟩⟩

/-- The children that token `target` stands for: those of a group, else itself. -/
def members (tokens : TokenTree K) (target : Nat) : List Nat :=
  match tokens.tokens[target]? with
  | none => []
  | some token => if token.isGroup then token.children else [target]

/-- The children of a node, as the tokens give them. -/
def project (tokens : TokenTree K) (id : Nat) : List Nat :=
  match tokens.tokens[id]? with
  | none => []
  | some token =>
    match token.level.bind Level.token with
    | some target => members tokens target
    | none => if token.isGroup then token.children else []

/-- The children of a node that were computed before, if they were. -/
def computed (t : NodeTree K) (id : Nat) : Option (List Nat) :=
  t.states[id]?.bind NodeState.children

/-- The children of a node. -/
def childIds (t : NodeTree K) (id : Nat) : List Nat := (t.computed id).getD (project t.tokens id)

/-- Keeps the children of a node. -/
def keep (t : NodeTree K) (id : Nat) : NodeTree K :=
  { t with states := t.states.modify id fun s =>
      { s with children := some (s.children.getD (project t.tokens id)) } }

/-- The tree after a look at it. -/
def after {α : Type} (t : NodeTree K) (look : Look α) : NodeTree K := look.asked.foldl keep t

/-- The constraints of a node, if it is strict. -/
def constraints (t : NodeTree K) (id : Nat) : Option (Constraints K) :=
  t.states[id]?.bind NodeState.constraints

/-- Makes a node strict, or not strict. -/
def setConstraints (t : NodeTree K) (id : Nat) (c : Option (Constraints K)) : NodeTree K :=
  { t with states := t.states.modify id fun s => { s with constraints := c } }

/-- The node of a number. -/
def node? (t : NodeTree K) (id : Nat) : Option (Node K) :=
  t.tokens.tokens[id]?.map fun token => ⟨t, id, token⟩

/-- The node that stands for the whole source. -/
def root (t : NodeTree K) : Node K := ⟨t, t.tokens.root, t.tokens.rootToken⟩

/-- The next node and what is left to visit, from a stack of siblings still to
visit, the deepest first. -/
def next? : List (List Nat) → Option (Nat × List (List Nat))
  | [] => none
  | [] :: outer => next? outer
  | (id :: siblings) :: outer => some (id, siblings :: outer)

/-- Visits nodes in pre-order, at most `n` of them. -/
def visit (children : Nat → List Nat) : Nat → List (List Nat) → List Nat
  | 0, _ => []
  | n + 1, stack =>
    match next? stack with
    | none => []
    | some (id, stack) =>
      id :: visit children n (if (children id).isEmpty then stack else children id :: stack)

/-- Everything below a node in pre-order. No node is below another twice, so
there are no more of them than tokens. -/
def below (t : NodeTree K) (id : Nat) : List Nat := visit t.childIds t.tokens.size [t.childIds id]

/-- The numbers met on the way up from `next`, at most `n` of them. -/
def climb (t : NodeTree K) : Nat → Option Nat → List Nat
  | 0, _ => []
  | _, none => []
  | n + 1, some id => id :: climb t n (t.tokens.tokens[id]?.bind Token.parent)

end NodeTree

namespace Node

variable {K : Type}

def kind (n : Node K) : K := n.token.kind

def isGroup (n : Node K) : Bool := n.token.isGroup

/-- The text that a node covers, delimiters included. -/
def text (n : Node K) : Text := n.tree.tokens.text n.token

/-- The text between the delimiters of a node. -/
def content (n : Node K) : Text := n.tree.tokens.content n.token

def info [DecidableEq K] [Taxonomy K] (n : Node K) : NodeInfo := ⟨n.id, Taxonomy.name n.kind⟩

def capture (n : Node K) : Capture K :=
  ⟨n.kind, String.ofList n.text, n.token.extra.getD .empty, n.token.children⟩

/-- The constraints of a node, if it is strict. -/
def constraints (n : Node K) : Option (Constraints K) := n.tree.constraints n.id

def isStrict (n : Node K) : Bool := n.constraints.isSome

/-- The numbers of the children. -/
def childIds (n : Node K) : Look (List Nat) := ⟨n.tree.childIds n.id, [n.id]⟩

def children (n : Node K) : Look (List (Node K)) :=
  ⟨(n.tree.childIds n.id).filterMap n.tree.node?, [n.id]⟩

def hasChildren (n : Node K) : Look Bool := ⟨!(n.tree.childIds n.id).isEmpty, [n.id]⟩

/-- The node of the nearest enclosing tag. -/
def parent? (n : Node K) : Option (Node K) := n.token.parent.bind n.tree.node?

/-- The nodes of the enclosing tags, nearest first. -/
def ancestors (n : Node K) : List (Node K) :=
  (n.tree.climb n.tree.tokens.size n.token.parent).filterMap n.tree.node?

/-- The number of enclosing tags. -/
def depth (n : Node K) : Nat := n.ancestors.length

/-- Everything below a node in pre-order. -/
def below (n : Node K) : List (Node K) := (n.tree.below n.id).filterMap n.tree.node?

/-- Everything below a node in pre-order. The children of each node are asked
for when the node is reached. -/
def descendants (n : Node K) : Look (List (Node K)) := ⟨n.below, n.id :: n.below.map Node.id⟩

/-- The first of the enclosing tags that passes a test, without the `skip`
nearest ones. -/
def findAncestor (n : Node K) (test : Node K → Bool) (skip : Nat) : Option (Node K) :=
  (n.ancestors.drop skip).find? test

/-- The first of some nodes that passes a test. -/
def findIn (test : Node K → Bool) : List (Node K) → Look (Option (Node K))
  | [] => pure none
  | n :: rest => do
    Look.ask n.id
    if test n then pure (some n) else findIn test rest

/-- The first node that passes a test, from the node itself on in pre-order. -/
def find (n : Node K) (test : Node K → Bool) : Look (Option (Node K)) :=
  if test n then pure (some n)
  else do
    Look.ask n.id
    findIn test n.below

end Node

end Bracketry
