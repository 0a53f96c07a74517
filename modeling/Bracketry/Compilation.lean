import Bracketry.Assembly.Scopes
import Bracketry.Grammar

/-!
# Compilation

A compilation emits the nodes of a tree in pre-order. Siblings share a scope,
and the children of a node get one of their own, attached after what the node
itself emitted. The walk keeps a stack of levels instead of recursing.
-/

namespace Bracketry

/-- The siblings on one level that are still to emit, and whether the level has
a scope of its own. -/
structure Pending (K : Type) where
  siblings : List (Node K)
  ownScope : Bool

/-- A tree to be compiled, the assembly to compile it into, and the arguments. -/
structure Compilation (K I : Type) where
  grammar : Grammar K I
  tree : NodeTree K
  output : Assembly I
  arguments : Bindings

namespace Compilation

variable {K I : Type} [DecidableEq K] [Taxonomy K]

def start (grammar : Grammar K I) (tree : NodeTree K) (output : Assembly I) : Compilation K I :=
  ⟨grammar, tree, output, .empty⟩

def setArguments (c : Compilation K I) (pairs : List (String × String)) : Compilation K I :=
  { c with arguments := c.arguments.insertAll pairs }

def removeArguments (c : Compilation K I) (keys : List String) : Compilation K I :=
  { c with arguments := c.arguments.eraseAll keys }

/-- Emits a node into the innermost scope. -/
def emit (c : Compilation K I) (n : Node K) (scopes : Scopes I) : Except Error (Scopes I) :=
  (c.grammar.make n c.arguments scopes.current).value.map scopes.setCurrent

/-- Emits what is pending, at most `n` nodes, the innermost level first. -/
def emitPending (c : Compilation K I) :
    Nat → Scopes I → List (Pending K) → Except Error (Assembly I)
  | _, scopes, [] => .ok scopes.finish
  | n, scopes, ⟨[], ownScope⟩ :: outer =>
    emitPending c n (if ownScope then scopes.leave else scopes) outer
  | 0, scopes, ⟨_ :: _, _⟩ :: _ => .ok scopes.finish
  | n + 1, scopes, ⟨node :: siblings, ownScope⟩ :: outer => do
    let scopes ← c.emit node scopes
    let children := node.children.value
    if children.isEmpty then emitPending c n scopes (⟨siblings, ownScope⟩ :: outer)
    else emitPending c n scopes.enter (⟨children, true⟩ :: ⟨siblings, ownScope⟩ :: outer)
termination_by n _ pending => (n, pending.length)

/-- Emits the whole tree. A group at the root emits nothing itself: its children
go to the outermost level. -/
def run (c : Compilation K I) : Except Error (Assembly I) := do
  let root := c.tree.root
  let children := root.children.value
  let scopes := Scopes.start c.output
  if root.isGroup then
    c.emitPending c.tree.tokens.size scopes [⟨children, false⟩]
  else
    let scopes ← c.emit root scopes
    if children.isEmpty then .ok scopes.finish
    else c.emitPending c.tree.tokens.size scopes.enter [⟨children, true⟩]

end Compilation

end Bracketry
