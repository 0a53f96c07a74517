import Bracketry.Scan.Course
import Bracketry.Scan.Segment

/-!
# Laying out segments

The segments of a source are laid out as one list of tokens, in the order in
which the scan admits them. A segment is placed by the position where it starts
and by the number that the next token gets; everything else follows from the
text that it covers.

* `Segment.own`: the course of a segment's own token.
* `Segment.inner`: the courses of the tokens admitted while it is read.
* `Outline.courses`: all courses of a source.
* `Segment.length_inner`: as many tokens are laid out as were counted.
-/

namespace Bracketry

/-- What the tokens of one source have in common: the kinds of those that no
rule opens, and the position of the end. -/
structure Layout (K : Type) where
  literalKind : K
  groupKind : K
  stop : Nat

namespace Segment

variable {K : Type}

/-- The span of a text at a position. -/
def spanAt (start : Nat) (text : Text) : Span := ⟨start, start + Text.bytes text⟩

/-- The course of the token of a segment that starts at `start`. The next token
to be admitted gets the number `next`. -/
def own (l : Layout K) (parent : Option Nat) (start next : Nat) : Segment K → Course K
  | .literal text swallowed =>
    .literal l.literalKind parent ⟨start, l.stop⟩ (Text.bytes text)
      (swallowed.map (spanAt (start + Text.bytes text)))
  | .tag t content closing =>
    let body := start + Text.bytes t.opening
    .tag t.rule.kind t.index parent ⟨start, l.stop⟩ (spanAt start t.opening) (Text.bytes content)
      (spanAt (body + Text.bytes content) closing) none (t.extra content)
  | .nest t seed first siblings closing =>
    let body := start + Text.bytes t.opening
    let length := Text.bytes seed + first.bytes + bytes.total siblings
    let closing := spanAt (body + length) closing
    .tag t.rule.kind t.index parent ⟨start, l.stop⟩ (spanAt start t.opening) length
      closing (some ⟨⟨body + Text.bytes seed, l.stop⟩, some (next + 2), some closing⟩)
      (t.extra (seed ++ first.textThen (texts siblings)))

/-- Segments in a row, as children of a group: the first starts at `start` and
has the number `next`. -/
def asChildren (start next : Nat) : List (Segment K) → List Child
  | [] => []
  | s :: rest =>
    ⟨next, ⟨start, start + s.bytes⟩, s.isEmptyLiteral⟩ ::
      asChildren (start + s.bytes) (next + s.count) rest

/-- The courses of the tokens inside a segment that starts at `start` and has
the number `id`, if the first of them gets the number `next`. -/
def inner (l : Layout K) (id start next : Nat) : Segment K → List (Course K)
  | .literal _ _ => []
  | .tag _ _ _ => []
  | .nest t seed first siblings _ =>
    let body := start + Text.bytes t.opening
    let place := body + Text.bytes seed
    let after := place + first.bytes
    let children :=
      ⟨next + 1, ⟨body, place⟩, seed.isEmpty⟩ :: ⟨next, ⟨place, after⟩, first.isEmptyLiteral⟩ ::
        asChildren after (next + 2 + first.count) siblings
    first.own l (some id) place (next + 3) ::
      .seed l.literalKind (some id) ⟨body, place⟩ ::
      .group l.groupKind (some id) ⟨body, l.stop⟩ children ::
      (first.inner l next place (next + 3) ++
        row l (some id) after (next + 2 + first.count) siblings)
where
  /-- The courses of all tokens of segments in a row. -/
  row (l : Layout K) (parent : Option Nat) (start next : Nat) : List (Segment K) → List (Course K)
    | [] => []
    | s :: rest =>
      s.own l parent start (next + 1) ::
        (s.inner l next start (next + 1) ++ row l parent (start + s.bytes) (next + s.count) rest)

mutual

/-- A segment admits as many tokens as it counts. -/
theorem length_inner (l : Layout K) (id start next : Nat) (s : Segment K) :
    (s.inner l id start next).length + 1 = s.count := by
  cases s with
  | literal text swallowed => simp [inner, count]
  | tag t content closing => simp [inner, count]
  | nest t seed first siblings closing =>
    have h1 := length_inner l next (start + Text.bytes t.opening + Text.bytes seed) (next + 3) first
    have h2 := length_row l (some id)
      (start + Text.bytes t.opening + Text.bytes seed + first.bytes) (next + 2 + first.count) siblings
    simp only [inner, count, List.length_cons, List.length_append]
    omega

theorem length_row (l : Layout K) (parent : Option Nat) (start next : Nat)
    (segments : List (Segment K)) :
    (inner.row l parent start next segments).length = count.counts segments := by
  cases segments with
  | nil => simp [inner.row, count.counts]
  | cons s rest =>
    have h1 := length_inner l next start (next + 1) s
    have h2 := length_row l parent (start + s.bytes) (next + s.count) rest
    simp only [inner.row, count.counts, List.length_cons, List.length_append]
    omega

end

end Segment

namespace Outline

variable {K : Type}

/-- The number of the token that stands for the whole source. -/
def root : Outline K → Nat
  | .single _ => 0
  | .series first second _ => first.count + second.count

/-- The courses of all tokens of a source, in the order of their numbers. -/
def courses (l : Layout K) (o : Outline K) : List (Course K) :=
  match o with
  | .single s => Segment.inner.row l none 0 0 [s]
  | .series first second more =>
    let start := first.bytes + second.bytes
    let next := o.root + 1
    let children :=
      Segment.asChildren 0 0 [first, second] ++ Segment.asChildren start next more
    Segment.inner.row l none 0 0 [first, second] ++
      .group l.groupKind none ⟨0, l.stop⟩ children :: Segment.inner.row l none start next more

theorem root_lt_length_courses (l : Layout K) (o : Outline K) : o.root < (o.courses l).length := by
  cases o with
  | single s => simp [root, courses, Segment.inner.row]
  | series first second more =>
    simp only [root, courses, List.length_append, List.length_cons, Segment.length_row,
      Segment.count.counts]
    omega

end Outline

end Bracketry
