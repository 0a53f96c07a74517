/-!
# Declaring kinds

The kinds of a grammar are declared as the cases of an enumeration. A case may be
marked as the base, as extending another case, or as having a name of its own; a
case that extends nothing extends the base. `Declaration.resolve` checks a
declaration and works out names and parents, or reports its first problem.
-/

namespace Bracketry

/-- What a case may be marked with. -/
inductive Mark
  | base
  | parent (ident : String)
  | rename (name : String)
  /-- A word that means nothing here. -/
  | other (word : String)
  deriving DecidableEq, Repr

/-- One case of a declaration, with its marks in order. -/
structure DeclaredCase where
  ident : String
  marks : List Mark
  /-- Whether the case is written with a list of fields, be it an empty one. -/
  hasFields : Bool
  deriving DecidableEq, Repr

inductive Shape
  | enumeration
  | record
  | union
  deriving DecidableEq, Repr

/-- A type declaration that is to become a set of kinds. -/
structure Declaration where
  shape : Shape
  name : String
  /-- Whether the type has generic parameters. -/
  isGeneric : Bool
  cases : List DeclaredCase
  deriving DecidableEq, Repr

namespace Declaration

/-- What is wrong with a declaration. -/
inductive Problem
  | notEnumeration
  | generic
  | fields
  | unknownMark
  | baseExtends
  | secondBase
  | sameName (ident other : String)
  | unknownParent (ident : String)
  | cyclic (ident : String)
  deriving DecidableEq, Repr

def Problem.message : Problem → String
  | .notEnumeration => "NodeKind can only be derived for enums"
  | .generic => "NodeKind enums cannot be generic"
  | .fields => "NodeKind variants must not carry fields"
  | .unknownMark => "expected `base`, `extends = Variant` or `rename = \"name\"`"
  | .baseExtends => "the base kind cannot extend another kind"
  | .secondBase => "only one kind can be marked `#[kind(base)]`"
  | .sameName ident other => "`" ++ ident ++ "` reuses the name of `" ++ other ++ "`"
  | .unknownParent ident => "no variant named `" ++ ident ++ "` to extend"
  | .cyclic ident => "`" ++ ident ++ "` extends itself through its parents"

/-- A case after its marks were read. -/
structure KindCase where
  ident : String
  name : String
  isBase : Bool
  parent : Option String
  deriving DecidableEq, Repr

/-- Reads marks in order; a later one of a sort replaces an earlier one. -/
def readMarks (c : KindCase) : List Mark → Except Problem KindCase
  | [] => .ok c
  | .base :: rest => readMarks { c with isBase := true } rest
  | .parent ident :: rest => readMarks { c with parent := some ident } rest
  | .rename name :: rest => readMarks { c with name := name } rest
  | .other _ :: _ => .error .unknownMark

/-- Reads one case. -/
def readCase (d : DeclaredCase) : Except Problem KindCase := do
  if d.hasFields then .error .fields
  else
    let c ← readMarks ⟨d.ident, d.ident, false, none⟩ d.marks
    if c.isBase && c.parent.isSome then .error .baseExtends else .ok c

/-- The position of the only case marked as base, if there is one. -/
def findBase (cases : List KindCase) : Except Problem (Option Nat) :=
  match cases.findIdx? KindCase.isBase with
  | none => .ok none
  | some i =>
    if (cases.drop (i + 1)).any KindCase.isBase then .error .secondBase else .ok (some i)

/-- Checks that no case has the name of one before it. -/
def checkNames (before : List KindCase) : List KindCase → Except Problem Unit
  | [] => .ok ()
  | c :: rest =>
    match before.find? fun other => other.name == c.name with
    | some other => .error (.sameName c.ident other.ident)
    | none => checkNames (before ++ [c]) rest

/-- The position of the case that the case at position `i` extends. -/
def findParent (cases : List KindCase) (base : Option Nat) (i : Nat) (c : KindCase) :
    Except Problem (Option Nat) :=
  match c.parent with
  | some ident =>
    match cases.findIdx? fun other => other.ident == ident with
    | some p => .ok (some p)
    | none => .error (.unknownParent ident)
  | none => .ok (if base = some i then none else base)

/-- The positions of the cases that the cases from position `i` on extend. -/
def findParents (cases : List KindCase) (base : Option Nat) :
    Nat → List KindCase → Except Problem (List (Option Nat))
  | _, [] => .ok []
  | i, c :: rest => do
    let p ← findParent cases base i c
    .ok (p :: (← findParents cases base (i + 1) rest))

/-- Whether the way up from a position comes to `start` within `n` steps. -/
def comesTo (parents : List (Option Nat)) (start : Nat) : Nat → Option Nat → Bool
  | 0, _ => false
  | _, none => false
  | n + 1, some i => i == start || comesTo parents start n (parents[i]?.join)

/-- Checks that no case from position `i` on extends itself through its parents. -/
def checkParents (parents : List (Option Nat)) : Nat → List KindCase → Except Problem Unit
  | _, [] => .ok ()
  | i, c :: rest =>
    if comesTo parents i parents.length (parents[i]?.join) then .error (.cyclic c.ident)
    else checkParents parents (i + 1) rest

end Declaration

/-- The kinds of a declaration: their cases in order, the position of the base,
and the position of the case that each extends. -/
structure KindTable where
  name : String
  cases : List Declaration.KindCase
  base : Option Nat
  parents : List (Option Nat)
  deriving DecidableEq, Repr

namespace KindTable

def idents (t : KindTable) : List String := t.cases.map (·.ident)

def names (t : KindTable) : List String := t.cases.map (·.name)

/-- The identifier of the case at a position. -/
def ident? (t : KindTable) (i : Option Nat) : Option String := do
  let c ← t.cases[← i]?
  return c.ident

end KindTable

/-- The kinds that a declaration declares, or its first problem: the type, then
each case, then the base, the names, the parents, and last the ways up. -/
def Declaration.resolve (d : Declaration) : Except Declaration.Problem KindTable := do
  if d.shape ≠ .enumeration then .error .notEnumeration
  else if d.isGeneric then .error .generic
  else
    let cases ← d.cases.mapM readCase
    let base ← findBase cases
    checkNames [] cases
    let parents ← findParents cases base 0 cases
    checkParents parents 0 cases
    .ok ⟨d.name, cases, base, parents⟩

end Bracketry
