import Bracketry.Text.Bytes

/-!
# Spans

A span is a range of byte positions of one source text. Cuts are relative to
the start of the span. They are made by sums of machine words: `Span.clamp` is
the cut that is meant, `Span.take` the one that is made.
-/

namespace Bracketry

/-- The byte positions from `start` up to, but not including, `stop`. -/
structure Span where
  start : Nat
  stop : Nat
  deriving DecidableEq, Repr, Inhabited

namespace Span

/-- The span of length zero at a position. -/
def empty (pos : Nat) : Span := ⟨pos, pos⟩

/-- The number of bytes covered; a span that stops before it starts covers none. -/
def length (s : Span) : Nat := s.stop - s.start

def isEmpty (s : Span) : Bool := s.length == 0

/-- The position `n` bytes behind a position, as a machine word: the sum starts again at zero
where it leaves the words. A build that checks its sums ends the program there. -/
def shift (pos n : Nat) : Nat := (pos + n) % UInt64.size

/-- The first `n` bytes of a span. -/
def take (s : Span) (n : Nat) : Span := ⟨s.start, min (shift s.start n) s.stop⟩

/-- All of a span but its first `n` bytes. -/
def drop (s : Span) (n : Nat) : Span := ⟨min (shift s.start n) s.stop, s.stop⟩

/-- The first `n` bytes of a span, and all of it where `n` reaches past its end. -/
def clamp (s : Span) (n : Nat) : Span := ⟨s.start, min (s.start + n) s.stop⟩

/-- The least span that covers two spans. -/
def join (s t : Span) : Span := ⟨min s.start t.start, max s.stop t.stop⟩

/-- The text that a span covers. -/
def slice (s : Span) (source : Text) : Text := Text.take s.length (Text.drop s.start source)

theorem shift_eq {pos n : Nat} (h : pos + n < UInt64.size) : shift pos n = pos + n :=
  Nat.mod_eq_of_lt h

/-- The first `n` bytes are cut as they are meant to be, if the sum is a machine word. -/
theorem take_eq_clamp {s : Span} {n : Nat} (h : s.start + n < UInt64.size) :
    s.take n = s.clamp n := by
  rw [take, shift_eq h, clamp]

@[simp] theorem length_empty (pos : Nat) : (empty pos).length = 0 := Nat.sub_self pos

end Span

end Bracketry
