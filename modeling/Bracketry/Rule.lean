import Bracketry.Bindings
import Bracketry.Text.Bytes

/-!
# Tag rules

A rule recognises one kind of tag by its delimiters. It looks only at the start
of the text it is given and answers with a length in bytes, so a delimiter
recognised once is recognised again.
-/

namespace Bracketry

/-- The delimiters of one kind of tag. -/
structure Rule (K : Type) where
  kind : K
  /-- The length of an open delimiter at the start of a text. A delimiter of
  length zero opens nothing. -/
  opens : Text → Option Nat
  /-- The length of a close delimiter at the start of a text, for a tag opened
  by the given delimiter. The text is empty at the end of the source. -/
  closes : Text → Text → Option Nat
  /-- The close delimiter to expect for an open one, for error messages. -/
  guess : Text → Option Text := fun _ => none
  /-- Extra fields of a tag, from its open delimiter and its content. -/
  extra : Text → Text → Option Bindings := fun _ _ => none

/-- The length of `p` at the start of a text. -/
def Text.lengthAt? (p s : Text) : Option Nat := if startsWith p s then some (bytes p) else none

/-- A tag between two fixed texts. An empty close text never closes. -/
def Rule.pair {K : Type} (kind : K) (opening closing : Text) : Rule K where
  kind := kind
  opens := Text.lengthAt? opening
  closes := fun _ s => if closing = [] then none else Text.lengthAt? closing s
  guess := fun _ => some closing

end Bracketry
