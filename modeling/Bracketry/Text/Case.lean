import Bracketry.Text.Blank
import Bracketry.Text.CaseTable

/-!
# Upper and lower case

The full case mappings of Unicode: one character may become several, and a
capital sigma at the end of a word becomes a final sigma in lower case.
-/

namespace Bracketry.Text

/-- A character under simple mappings: the first run that holds it moves it. -/
def shiftBy (runs : List CaseRun) (c : Char) : Char :=
  match runs.find? fun r =>
      r.first ≤ c.toNat && c.toNat ≤ r.last && (c.toNat - r.first) % r.step == 0 with
  | some r => Char.ofNat (c.toNat + r.shift).toNat
  | none => c

/-- A character under full mappings. -/
def expandBy (expansions : List (Nat × List Nat)) (runs : List CaseRun) (c : Char) : Text :=
  match expansions.lookup c.toNat with
  | some codes => codes.map Char.ofNat
  | none => [shiftBy runs c]

/-- A character in upper case. -/
def upperChar (c : Char) : Text := expandBy upperExpansions upperRuns c

/-- A character in lower case, out of any word. -/
def lowerChar (c : Char) : Text := expandBy lowerExpansions lowerRuns c

/-- Whether the first character that casing does not ignore is cased. -/
def meetsCased (s : Text) : Bool :=
  match s.dropWhile (inRanges caseIgnorableRanges) with
  | [] => false
  | c :: _ => inRanges casedRanges c

/-- A text in lower case; `before` is what precedes it, last character first. A
capital sigma ends a word if a cased character is before it and none follows. -/
def lowerFrom (before : Text) : Text → Text
  | [] => []
  | c :: rest =>
    (if c = '\u03a3' then
        [if meetsCased before && !meetsCased rest then '\u03c2' else '\u03c3']
      else lowerChar c) ++ lowerFrom (c :: before) rest

/-- A text in lower case. -/
def lower (s : Text) : Text := lowerFrom [] s

/-- A text in upper case. -/
def upper (s : Text) : Text := s.flatMap upperChar

end Bracketry.Text
