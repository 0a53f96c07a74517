import Bracketry.Assembly.Basic
import Bracketry.Tree.Cells
import Bracketry.Tree.Check

/-!
# Queries

Code that reads a tree asks for tokens, for nodes and for children, and what it asks for next may
depend on every answer so far. A query is such code as data. It runs on the cells in place, where
every question may make a node or compute its children.

What the engine itself reads off a tree are queries: the structure around a node, the check of a
strict node, and the making of a node with the code of a grammar. Their loops go down with a stack of
siblings still to visit and up from parent to parent. A bound says how many steps they may take; as
many as there are tokens are enough.

* `Query.run`: a query on the cells.
* `Cells.replay`: a row of reads and of configurations of single nodes.
-/

namespace Bracketry

variable {K : Type}

/-- Code that reads a tree and has an answer in the end. -/
inductive Query (K α : Type)
  | done (answer : α)
  | askToken (id : Nat) (next : Token K → Query K α)
  | askNode (id : Nat) (next : MadeNode K → Query K α)
  | askChildren (id : Nat) (next : List Nat → Query K α)

namespace Query

variable {α β : Type}

/-- One query after another. -/
def bind : Query K α → (α → Query K β) → Query K β
  | .done a, f => f a
  | .askToken id next, f => .askToken id fun token => (next token).bind f
  | .askNode id next, f => .askNode id fun made => (next made).bind f
  | .askChildren id next, f => .askChildren id fun ids => (next ids).bind f

/-- A query with its answer changed. -/
def map (q : Query K α) (f : α → β) : Query K β := q.bind fun a => .done (f a)

/-- Runs a query on the cells. -/
def run : Query K α → StateT (Cells K) Option α
  | .done a => return a
  | .askToken id next => do
    let token ← (← get).tokens.tokens[id]?
    (next token).run
  | .askNode id next => do
    let made ← Cells.node id
    (next made).run
  | .askChildren id next => do
    let ids ← Cells.children id
    (next ids).run

/-- What the cells answer to a query, if it does not fail. -/
def answer (q : Query K α) (c : Cells K) : Option α := (q.run.run c).map Prod.fst

/-! ## Around a node -/

/-- The children of a node. -/
def childIds (id : Nat) : Query K (List Nat) := .askChildren id .done

def hasChildren (id : Nat) : Query K Bool := .askChildren id fun ids => .done !ids.isEmpty

/-- The constraints of a node. -/
def constraints (id : Nat) : Query K (Option (Constraints K)) :=
  .askNode id fun made => .done made.constraints

/-! ## Down -/

/-- Visits nodes in pre-order, from a stack of siblings still to visit. -/
def descend : Nat → List (List Nat) → Query K (List Nat)
  | 0, _ => .done []
  | n + 1, stack =>
    match NodeTree.next? stack with
    | none => .done []
    | some (id, stack) =>
      .askChildren id fun ids =>
        (descend n (if ids.isEmpty then stack else ids :: stack)).map (id :: ·)

/-- What is below a node. -/
def descendants (bound id : Nat) : Query K (List Nat) :=
  .askChildren id fun ids => descend bound [ids]

/-- Visits nodes in pre-order and judges each by its kind, until there is a result. -/
def sift {σ β : Type} (judge : σ → Nat → K → β ⊕ σ) (finish : σ → β) :
    Nat → σ → List (List Nat) → Query K β
  | 0, s, _ => .done (finish s)
  | n + 1, s, stack =>
    match NodeTree.next? stack with
    | none => .done (finish s)
    | some (id, stack) =>
      .askChildren id fun ids => .askNode id fun made =>
        match judge s id made.kind with
        | .inl result => .done result
        | .inr s => sift judge finish n s (if ids.isEmpty then stack else ids :: stack)

/-- Picks the first node whose kind passes a test. -/
def pick (test : K → Bool) (_ : Unit) (id : Nat) (kind : K) : Option Nat ⊕ Unit :=
  if test kind then .inl (some id) else .inr ()

/-- The first node whose kind passes a test, from the node itself on in pre-order. -/
def find (test : K → Bool) (bound id : Nat) : Query K (Option Nat) :=
  .askNode id fun made =>
    if test made.kind then .done (some id)
    else .askChildren id fun ids => sift (pick test) (fun _ => none) bound () [ids]

/-! ## Up -/

/-- The numbers met on the way up. -/
def climb : Nat → Option Nat → Query K (List Nat)
  | 0, _ => .done []
  | _, none => .done []
  | n + 1, some id =>
    .askToken id fun token => (climb n token.parent).map (id :: ·)

/-- What encloses a node, nearest first. -/
def ancestors (bound id : Nat) : Query K (List Nat) :=
  .askToken id fun token => climb bound token.parent

def depth (bound id : Nat) : Query K Nat :=
  (ancestors bound id).map List.length

/-- The first node on the way up whose kind passes a test, without the `skip` nearest ones. -/
def rise (test : K → Bool) : Nat → Nat → Option Nat → Query K (Option Nat)
  | 0, _, _ => .done none
  | _, _, none => .done none
  | n + 1, skip + 1, some id => .askToken id fun token => rise test n skip token.parent
  | n + 1, 0, some id =>
    .askToken id fun token => .askNode id fun made =>
      if test made.kind then .done (some id) else rise test n 0 token.parent

/-- The first of the enclosing tags whose kind passes a test. -/
def findAncestor (test : K → Bool) (skip bound id : Nat) : Query K (Option Nat) :=
  .askToken id fun token => rise test bound skip token.parent

/-! ## Checking and making -/

section

variable {I : Type} [DecidableEq K] [Taxonomy K]

/-- Judges a descendant of a strict node by its kind. -/
def judge (c : Constraints K) (container : NodeInfo) (unmet : List K) (id : Nat) (kind : K) :
    Except Error Unit ⊕ List K :=
  if c.allows kind then
    let unmet := Constraints.meet kind unmet
    if !c.mandatoryKinds.isEmpty && unmet.isEmpty then .inl (.ok ()) else .inr unmet
  else .inl (.error (.disallowed ⟨id, Taxonomy.name kind⟩ container))

/-- What the kinds still unmet after the last descendant mean. -/
def unmetError (container : NodeInfo) (unmet : List K) : Except Error Unit :=
  if unmet.isEmpty then .ok () else .error (.missing container (unmet.map Taxonomy.name))

/-- Checks a node against its own constraints, if it is strict. -/
def check (bound id : Nat) : Query K (Except Error Unit) :=
  .askNode id fun made =>
    match made.constraints with
    | none => .done (.ok ())
    | some c =>
      let container : NodeInfo := ⟨id, Taxonomy.name made.kind⟩
      .askChildren id fun ids =>
        sift (judge c container) (unmetError container) bound c.mandatoryKinds [ids]

/-- Allows a node that passes its own constraints. -/
def allowChecked (bound id : Nat) : Query K (Except Error Bool) :=
  (check bound id).map fun verdict => verdict.map fun _ => true

/-- The refusal of a node, with the node of the enclosing tag. -/
def refuse (id : Nat) : Query K (Except Error (Assembly I)) :=
  .askNode id fun made => .askToken id fun token =>
    let info : NodeInfo := ⟨id, Taxonomy.name made.kind⟩
    match token.parent with
    | none => .done (.error (.refused info none))
    | some p => .askNode p fun outer => .done (.error (.refused info (some ⟨p, Taxonomy.name outer.kind⟩)))

/-- Makes a node with the code of a grammar. -/
def make (isAllowed : Query K (Except Error Bool)) (emit : Query K (Except Error (Assembly I)))
    (id : Nat) : Query K (Except Error (Assembly I)) :=
  isAllowed.bind fun
    | .error e => .done (.error e)
    | .ok false => refuse id
    | .ok true => emit

end

end Query

/-! ## Histories -/

/-- A configuration of the constraints of a node. -/
inductive Config (K : Type)
  /-- Sets them, or takes them away. -/
  | set (constraints : Option (Constraints K))
  /-- Changes the ones that are there. -/
  | adjust (change : Constraints K → Constraints K)

/-- The constraints after a configuration. -/
def Config.apply : Config K → Option (Constraints K) → Option (Constraints K)
  | .set constraints, _ => constraints
  | .adjust change, constraints => constraints.map change

/-- A step of a history. -/
inductive Cells.Step (K : Type) : Type 1
  | read {α : Type} (query : Query K α)
  | configure (id : Nat) (config : Config K)

namespace Cells

/-- Does a step on the cells. -/
def Step.run : Step K → Cells K → Option (Cells K)
  | .read query, c => (query.run.run c).map Prod.snd
  | .configure id config, c => ((Cells.configure id config.apply).run c).map Prod.snd

/-- The cells after a history, if nothing in it fails. -/
def replay (c : Cells K) (steps : List (Step K)) : Option (Cells K) :=
  steps.foldlM (fun c step => step.run c) c

/-- The children in the cell of a node, if they are there. -/
def memo? (c : Cells K) (id : Nat) : Option (List Nat) :=
  c.nodes[id]?.join.bind MadeNode.children

end Cells

end Bracketry
