import Bracketry.Text.Bytes

/-!
# White space

The white space characters of Unicode, and texts without them at their ends.
-/

namespace Bracketry.Text

/-- Ranges of the characters with the Unicode property of white space. -/
def blankRanges : List (Nat × Nat) := [
  (9, 0xD), (0x20, 0x20), (0x85, 0x85), (0xA0, 0xA0), (0x1680, 0x1680), (0x2000, 0x200A),
  (0x2028, 0x2029), (0x202F, 0x202F), (0x205F, 0x205F), (0x3000, 0x3000)]

/-- Whether a character lies in one of some ranges, ends included. -/
def inRanges (ranges : List (Nat × Nat)) (c : Char) : Bool :=
  ranges.any fun r => r.1 ≤ c.toNat && c.toNat ≤ r.2

def isBlank (c : Char) : Bool := inRanges blankRanges c

/-- A text without the white space at its start. -/
def trimStart (s : Text) : Text := s.dropWhile isBlank

/-- A text without the white space at its end. -/
def trimEnd (s : Text) : Text := (trimStart s.reverse).reverse

/-- A text without the white space at its ends. -/
def trim (s : Text) : Text := trimEnd (trimStart s)

end Bracketry.Text
