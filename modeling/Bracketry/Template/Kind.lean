import Bracketry.Taxonomy

/-!
# Kinds of the template language

A template is text with variables, filter blocks and optional blocks in it.
-/

namespace Bracketry.Template

inductive Kind
  | node
  | document
  | text
  | var
  | block
  | filter
  | optional
  deriving DecidableEq, Repr

namespace Kind

def name : Kind → String
  | .node => "Node"
  | .document => "Document"
  | .text => "Text"
  | .var => "Var"
  | .block => "Block"
  | .filter => "Filter"
  | .optional => "Optional"

/-- Filters and optional sections are blocks, and everything is a node. -/
def parent : Kind → Option Kind
  | .node => none
  | .filter => some .block
  | .optional => some .block
  | _ => some .node

def height : Kind → Nat
  | .node => 0
  | .filter => 2
  | .optional => 2
  | _ => 1

instance : Taxonomy Kind where
  all := [.node, .document, .text, .var, .block, .filter, .optional]
  mem_all := by intro k; cases k <;> decide
  all_nodup := by decide
  base := some .node
  name := name
  parent := parent
  height := height
  height_parent := by intro k p; cases k <;> cases p <;> decide

end Kind

end Bracketry.Template
