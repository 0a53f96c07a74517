import Bracketry.Compilation
import Bracketry.Template.Delimiter
import Bracketry.Template.Piece

/-!
# The template grammar

A variable holds plain text and a filter names a known transformation. An
optional section begins with a variable, or with text and then a variable; the
check of the section ends there, and what follows is not looked at.
-/

namespace Bracketry.Template

/-- The rules of the language, in the order of their registration. -/
def rules : Ruleset Kind := ⟨.text, .document, [varRule, filterRule, optionalRule]⟩

/-- Only optional sections are strict. -/
def constraints : Kind → Option (Constraints Kind)
  | .optional =>
    some ((((Constraints.fresh.disallow .node).allow .text).allow .var).require .var)
  | _ => none

/-- The transformation that a filter node names, if there is one of that name. -/
def filterOf? (n : Node Kind) : Option Filter := do
  let extra ← n.token.extra
  let name ← extra.get? filterField
  Filter.ofName? name

/-- The name of the argument that a variable node stands for. -/
def varName (n : Node Kind) : String := String.ofList (Text.trim n.content)

/-- Whether a node may be emitted: it passes its constraints, a variable has no
tags inside, and a filter is known. -/
def isAllowed (n : Node Kind) : Look (Except Error Bool) := do
  match ← n.check with
  | .error e => return .error e
  | .ok () =>
    match n.kind with
    | .var => return .ok !(← n.hasChildren)
    | .filter => return .ok (filterOf? n).isSome
    | _ => return .ok true

/-- The piece that a node emits. -/
def piece (n : Node Kind) (args : Bindings) : Piece :=
  match n.kind with
  | .text => .text (String.ofList n.text)
  | .var => .value (varName n) (args.get? (varName n))
  | .filter =>
    match filterOf? n with
    | some f => .filter f (String.ofList n.content)
    | none => .raw n.capture
  | .optional => .optional (String.ofList n.content)
  | _ => .raw n.capture

def grammar : Grammar Kind Piece where
  rules := rules
  constraints := constraints
  isAllowed := isAllowed
  emit := fun n args out => pure (.ok (out.push (piece n args)))

end Bracketry.Template
