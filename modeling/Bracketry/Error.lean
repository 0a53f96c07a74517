/-!
# Errors of the engine

What can go wrong between a source text and its compiled output, each cause with
what it has to tell. `Error.message` is the only place that words them.
-/

namespace Bracketry

/-- The ways to call a token against its life cycle. -/
inductive Violation
  | openingUnknown
  | alreadyOpened
  | notOpened
  | closingUnknown
  | alreadyClosed
  deriving DecidableEq, Repr

namespace Violation

def message : Violation → String
  | .openingUnknown => "opening tag not identified, token cannot be opened"
  | .alreadyOpened => "token is opened already"
  | .notOpened => "token was never opened"
  | .closingUnknown => "closing tag not identified, token cannot be closed"
  | .alreadyClosed => "token is closed already"

end Violation

/-- A node as an error names it: its number and the name of its kind. -/
structure NodeInfo where
  id : Nat
  kind : String
  deriving DecidableEq, Repr

/-- The kind and number of a node, as in `Tag#3`. -/
def NodeInfo.label (n : NodeInfo) : String := n.kind ++ "#" ++ toString n.id

inductive Error
  /-- A token was called against its life cycle. -/
  | misuse (kind : String) (violation : Violation)
  /-- The text ended while a tag was open. `opening` is its open delimiter, or
  its kind if that is empty; `expected` the close delimiter its rule guesses. -/
  | unclosed (opening : String) (expected : Option String) (offset : Nat)
  /-- The grammar does not allow a node. -/
  | refused (node : NodeInfo) (parent : Option NodeInfo)
  /-- A strict node has a descendant of a kind it does not allow. -/
  | disallowed (child container : NodeInfo)
  /-- A strict node lacks descendants of some of its mandatory kinds. -/
  | missing (node : NodeInfo) (kinds : List String)
  | invalid (argument reason : String)
  | tooDeep (depth limit : Nat)
  | tooMany (consumed limit : Nat)
  deriving DecidableEq, Repr

namespace Error

def message : Error → String
  | .misuse kind violation => "protocol violation on " ++ kind ++ " token: " ++ violation.message
  | .unclosed opening expected offset =>
    "unclosed " ++ opening ++ " token at byte " ++ toString offset ++ " expects a closing " ++
      (match expected with
        | some tag => tag ++ " "
        | none => "") ++ "tag"
  | .refused node parent =>
    "the node " ++ node.label ++ " is not allowed " ++
      match parent with
      | some parent => "in a " ++ parent.label ++ " node"
      | none => "as the root node"
  | .disallowed child container =>
    "the node " ++ child.label ++ " is not allowed in a " ++ container.label ++ " node"
  | .missing node kinds =>
    "the node " ++ node.label ++ " has mandatory constraints which are not met: " ++
      ", ".intercalate kinds
  | .invalid argument reason => "invalid argument `" ++ argument ++ "`: " ++ reason
  | .tooDeep depth limit =>
    "recursion limit exceeded: depth " ++ toString depth ++ " > limit " ++ toString limit
  | .tooMany consumed limit =>
    "token limit exceeded: consumed " ++ toString consumed ++ " > limit " ++ toString limit

/-- No kind has the given name. -/
def unknownKind (name : String) : Error :=
  .invalid "kind" ("`" ++ name ++ "` is not a known node kind")

end Error

end Bracketry
