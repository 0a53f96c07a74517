import Bracketry.Template.Kind
import Bracketry.Text.Case
import Bracketry.Tree.Node

/-!
# Pieces of a compiled template

What the nodes of a template emit. A filter or an optional section whose content
held tags is followed by a nested sequence with the pieces of its content; its
own body counts only where no such sequence follows.
-/

namespace Bracketry.Template

/-- The text transformations that a template may name. -/
inductive Filter
  | upper
  | lower
  | trim
  deriving DecidableEq, Repr

namespace Filter

def name : Filter → String
  | .upper => "upper"
  | .lower => "lower"
  | .trim => "trim"

def ofName? (s : String) : Option Filter := [upper, lower, trim].find? fun f => f.name == s

def apply (f : Filter) (s : String) : String :=
  String.ofList <| match f with
    | .upper => Text.upper s.toList
    | .lower => Text.lower s.toList
    | .trim => Text.trim s.toList

end Filter

inductive Piece
  | text (text : String)
  /-- A variable and its value, if the arguments have one. -/
  | value (name : String) (value : Option String)
  | filter (filter : Filter) (body : String)
  | optional (body : String)
  /-- A node that means nothing to the template language. -/
  | raw (capture : Capture Kind)

end Bracketry.Template
