import Bracketry.Rule
import Bracketry.Template.Kind
import Bracketry.Text.Blank

/-!
# Delimiters of the template language

Variables stand between double braces, filters between a brace with a number
sign, and optional sections between a brace with a question mark. A filter names
itself in its open delimiter, which takes the blanks after the name along.
-/

namespace Bracketry.Template

inductive Delimiter
  | varOpen
  | varClose
  | filterOpen
  | filterClose
  | optionalOpen
  | optionalClose
  deriving DecidableEq, Repr

namespace Delimiter

/-- The characters of a filter name. -/
def isNameChar (c : Char) : Bool := 'a' ≤ c && c ≤ 'z'

/-- The blanks that may follow a filter name in its delimiter. -/
def isGap (c : Char) : Bool := c == ' ' || c == '\t'

/-- The length of a filter name and the blanks after it. -/
def filterNameLength? (s : Text) : Option Nat :=
  match s.takeWhile isNameChar with
  | [] => none
  | name => some (name.length + ((s.dropWhile isNameChar).takeWhile isGap).length)

/-- The delimiter at the start of a text, with its length in bytes. -/
def atStart? : Text → Option (Delimiter × Nat)
  | '\x7b' :: '\x7b' :: _ => some (.varOpen, 2)
  | '\x7d' :: '\x7d' :: _ => some (.varClose, 2)
  | '\x7b' :: '#' :: rest => (filterNameLength? rest).map fun n => (.filterOpen, 2 + n)
  | '#' :: '\x7d' :: _ => some (.filterClose, 2)
  | '\x7b' :: '?' :: _ => some (.optionalOpen, 2)
  | '?' :: '\x7d' :: _ => some (.optionalClose, 2)
  | _ => none

/-- The length of one delimiter at the start of a text. -/
def lengthAt? (d : Delimiter) (s : Text) : Option Nat :=
  match atStart? s with
  | some (found, n) => if found = d then some n else none
  | none => none

end Delimiter

/-- The name of the field in which a filter keeps its name. -/
def filterField : String := "filter"

/-- A text without the openings of a filter at its start. -/
def dropFilterOpenings : Text → Text
  | '\x7b' :: '#' :: rest => dropFilterOpenings rest
  | s => s

/-- The name of a filter, from its open delimiter. -/
def filterName (opening : Text) : String :=
  String.ofList (Text.trimEnd (dropFilterOpenings opening))

def varRule : Rule Kind where
  kind := .var
  opens := Delimiter.lengthAt? .varOpen
  closes := fun _ => Delimiter.lengthAt? .varClose
  guess := fun _ => some ['\x7d', '\x7d']

def filterRule : Rule Kind where
  kind := .filter
  opens := Delimiter.lengthAt? .filterOpen
  closes := fun _ => Delimiter.lengthAt? .filterClose
  guess := fun _ => some ['#', '\x7d']
  extra := fun opening _ => some (.ofList [(filterField, filterName opening)])

def optionalRule : Rule Kind where
  kind := .optional
  opens := Delimiter.lengthAt? .optionalOpen
  closes := fun _ => Delimiter.lengthAt? .optionalClose
  guess := fun _ => some ['?', '\x7d']

end Bracketry.Template
