import Bracketry.Template.Grammar

/-!
# Rendering a template

The pieces of a template are put together from left to right. Outside optional
sections every variable needs a value; an optional section in which one is
missing renders as nothing.

* `renderPieces`: the text of a sequence of pieces. A nested sequence right after
  a piece belongs to that piece.
* `render`: the text of a template source.
-/

namespace Bracketry.Template

inductive Failure
  | engine (error : Error)
  | missingArgument (name : String)
  deriving DecidableEq, Repr

def Failure.message : Failure → String
  | .engine error => error.message
  | .missingArgument name => "missing argument `" ++ name ++ "`"

/-- The text of one piece. `body` is the text of the nested sequence that belongs
to it, or else of its own body. -/
def Piece.render (body : String → Except Failure String) : Piece → Except Failure String
  | .text t => .ok t
  | .value _ (some v) => .ok v
  | .value name none => .error (.missingArgument name)
  | .filter f own => (body own).map f.apply
  | .optional own =>
    match body own with
    | .error (.missingArgument _) => .ok ""
    | result => result
  | .raw c => .ok c.text

/-- The text of pieces in order; the first error wins. -/
def renderPieces : Assembly Piece → Except Failure String
  | [] => .ok ""
  | .nested entries :: rest => do
    let text ← renderPieces entries
    .ok (text ++ (← renderPieces rest))
  | .item piece :: .nested entries :: rest => do
    let text ← piece.render fun _ => renderPieces entries
    .ok (text ++ (← renderPieces rest))
  | .item piece :: rest => do
    let text ← piece.render .ok
    .ok (text ++ (← renderPieces rest))

/-- Scans and compiles a template with arguments, within the default limits. -/
def compile (source : String) (args : List (String × String)) :
    Except Failure (Assembly Piece) :=
  let compiled := do
    let tree ← grammar.read .default source.toList
    ((Compilation.start grammar tree []).setArguments args).run
  compiled.mapError .engine

/-- Scans, compiles and renders a template with arguments. -/
def render (source : String) (args : List (String × String)) : Except Failure String := do
  renderPieces (← compile source args)

end Bracketry.Template
