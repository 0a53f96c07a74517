import Bracketry.Assembly.Basic
import Bracketry.Tree.Check

/-!
# Grammars

A grammar is what makes a mini-language of the engine: its tag rules, the kinds
that are strict, which nodes are allowed, and what a node emits.
-/

namespace Bracketry

/-- A mini-language whose nodes are of kind `K` and emit items of type `I`. -/
structure Grammar (K I : Type) where
  rules : Ruleset K
  /-- The constraints of the nodes of a kind; a kind with constraints is strict. -/
  constraints : K → Option (Constraints K)
  /-- Whether a node may be emitted at all. -/
  isAllowed : Node K → Look (Except Error Bool)
  /-- Emits a node into the assembly of its depth. -/
  emit : Node K → Bindings → Assembly I → Look (Except Error (Assembly I))

namespace Grammar

variable {K I : Type} [DecidableEq K] [Taxonomy K]

/-- A node is allowed if it passes its own constraints. -/
def allowChecked (n : Node K) : Look (Except Error Bool) := do
  return (← n.check).map fun _ => true

/-- Emits the capture of a node as one item. -/
def emitCapture (item : Capture K → I) (n : Node K) (_args : Bindings) (out : Assembly I) :
    Look (Except Error (Assembly I)) :=
  pure (.ok (out.push (item n.capture)))

/-- The grammar of some rules in which no kind is strict and a node emits its
capture. -/
def plain (rules : Ruleset K) (item : Capture K → I) : Grammar K I where
  rules := rules
  constraints := fun _ => none
  isAllowed := allowChecked
  emit := emitCapture item

/-- The nodes of a source text. -/
def read (g : Grammar K I) (limits : Limits) (source : Text) : Except Error (NodeTree K) :=
  (TokenTree.scan g.rules limits source).map (NodeTree.ofTokens g.constraints)

/-- Checks a node and emits it. -/
def make (g : Grammar K I) (n : Node K) (args : Bindings) (out : Assembly I) :
    Look (Except Error (Assembly I)) := do
  match ← g.isAllowed n with
  | .error e => return .error e
  | .ok false => return .error (.refused n.info (n.parent?.map Node.info))
  | .ok true => g.emit n args out

end Grammar

end Bracketry
