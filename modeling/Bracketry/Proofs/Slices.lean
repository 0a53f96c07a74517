import Bracketry.Scan.Layout

/-!
# Spans that cover a text

A span covers a text of the source if it starts and stops between two characters
and the text lies in between. Slicing by such a span gives the text back.

* `Span.Covers.slice_eq`: the slice of a span is the text that it covers.
* `Span.Covers.split`: a span is cut into those of the parts of its text.
-/

namespace Bracketry

namespace Text

theorem bytes_pos {s : Text} (h : s ≠ []) : 0 < bytes s := by
  cases s with
  | nil => exact absurd rfl h
  | cons c r => exact Nat.add_pos_left c.utf8Size_pos _

theorem take_bytes_append (s t : Text) : take (bytes s) (s ++ t) = s := by
  induction s with
  | nil => simp
  | cons c r ih =>
    have hc := c.utf8Size_pos
    obtain ⟨n, hn⟩ : ∃ n, bytes (c :: r) = n + 1 := ⟨c.utf8Size - 1 + bytes r, by simp; omega⟩
    have hr : n + 1 - c.utf8Size = bytes r := by rw [bytes_cons] at hn; omega
    rw [hn, List.cons_append, take, hr, ih]

theorem drop_bytes_append (s t : Text) : drop (bytes s) (s ++ t) = t := by
  have h := take_append_drop (bytes s) (s ++ t)
  rw [take_bytes_append] at h
  exact List.append_cancel_left h

end Text

/-- A span covers a text of the source. -/
def Span.Covers (source : Text) (span : Span) (text : Text) : Prop :=
  ∃ before after, source = before ++ text ++ after ∧ span = Segment.spanAt (Text.bytes before) text

namespace Span.Covers

variable {source text other : Text} {span : Span}

theorem slice_eq (h : span.Covers source text) : span.slice source = text := by
  obtain ⟨before, after, rfl, rfl⟩ := h
  rw [Span.slice, Segment.spanAt, Span.length, Nat.add_sub_cancel_left, List.append_assoc,
    Text.drop_bytes_append, Text.take_bytes_append]

/-- The span of a text at a position is cut into those of its parts. -/
theorem split (start : Nat)
    (h : (Segment.spanAt start (text ++ other)).Covers source (text ++ other)) :
    (Segment.spanAt start text).Covers source text ∧
      (Segment.spanAt (start + Text.bytes text) other).Covers source other := by
  obtain ⟨before, after, rfl, hs⟩ := h
  have hb : start = Text.bytes before := congrArg Span.start hs
  subst hb
  refine ⟨⟨before, other ++ after, by simp, rfl⟩, ⟨before ++ text, after, by simp, ?_⟩⟩
  rw [Text.bytes_append]

end Span.Covers

end Bracketry
