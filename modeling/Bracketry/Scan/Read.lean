import Bracketry.Limits
import Bracketry.Scan.Segment
import Bracketry.Scan.Stop

/-!
# Reading segments

The scan of a source, by recursive descent. A level is read segment by segment.
A tag is read up to its close delimiter; where another tag opens first, the rest
of its content is delegated to a level one deeper, and the tag closes where that
level runs into its close delimiter.

The scan counts the tokens it admits, in the order in which it admits them: a
tag before what is inside it, and on a delegated level the first tag, then the
plain text before it, then the group, and only then what is inside the first
tag. The group of the outermost level is admitted after its second segment.

What is left to read is part of every result: reading never moves back, and on a
level every segment moves on. Lengths that rules report are numbers of bytes here,
cut off at the end of the text; `Scan/Positions` adds them to positions.
-/

namespace Bracketry

/-- What a scan has at hand: the rules, the bounds, and the source. -/
structure Scanner (K : Type) where
  rules : Ruleset K
  limits : Limits
  source : Text

/-- A segment, the text after it, and the number of tokens admitted so far. -/
structure Scanned (K : Type) where
  segment : Segment K
  rest : Text
  admitted : Nat

/-- The segments of a level, the text after them, and the number of tokens
admitted so far. `closing` is the close delimiter that the last one swallowed. -/
structure ScannedLevel (K : Type) where
  segments : List (Segment K)
  closing : Option Text
  rest : Text
  admitted : Nat

/-- Puts a segment in front of a level. -/
def ScannedLevel.cons {K : Type} (s : Segment K) (level : ScannedLevel K) : ScannedLevel K :=
  { level with segments := s :: level.segments }

namespace Scanner

variable {K : Type} [DecidableEq K] [Taxonomy K]

/-- The position at which the source has only `text` left. -/
def offset (s : Scanner K) (text : Text) : Nat := Text.bytes s.source - Text.bytes text

mutual

/-- Reads the tag that `opening` opens at the start of `text`. -/
def readTag (s : Scanner K) (gauge : Gauge) (admitted : Nat) (opening : Opening K) (text : Text) :
    Except Error { r : Scanned K // r.rest.length ≤ (Text.drop opening.length text).length } :=
  let tag := opening.tag text
  match h : s.rules.contentStop tag.closes (Text.drop opening.length text) with
  | .closed content closing rest =>
    .ok ⟨⟨.tag tag content closing, rest, admitted⟩, by
      rw [← Ruleset.contentStop_closed h]; simp; omega⟩
  | .missing => .error (tag.unclosed (s.offset text))
  | .opens seed inner rest => do
    match hg : gauge.enter.check s.limits.depth with
    | .error e => .error e
    | .ok () =>
      have := Gauge.room_enter hg
      let rule ← s.rules.rule inner.index
      let admitted ← s.limits.grant admitted
      let admitted ← s.limits.grant admitted
      let admitted ← s.limits.grant admitted
      let ⟨first, hf⟩ ← readTag s gauge.enter admitted { inner with rule := rule } rest
      let ⟨level, hl⟩ ← readLevel s gauge.enter first.admitted tag.closes first.rest
      match level.closing with
      | none => .error (tag.unclosed (s.offset text))
      | some closing =>
        .ok ⟨⟨.nest tag seed first.segment level.segments closing, level.rest, level.admitted⟩, by
          have := Text.length_drop_le inner.length rest
          rw [← (Ruleset.contentStop_opens h).1, List.length_append]
          dsimp only at hf ⊢
          omega⟩
termination_by (s.limits.depth - gauge.depth, text.length, 0)

/-- Reads the segment at the start of `text`, on a level that ends where
`closes` recognises the close delimiter of the enclosing tag. -/
def readSegment (s : Scanner K) (gauge : Gauge) (admitted : Nat) (closes : Text → Option Nat)
    (text : Text) :
    Except Error { r : Scanned K // r.rest.length ≤ text.length ∧
      (text ≠ [] → r.segment.swallowed = none → r.rest.length < text.length) } :=
  match h : s.rules.opening? text with
  | some opening => do
    let rule ← s.rules.rule opening.index
    let admitted ← s.limits.grant admitted
    let ⟨r, hr⟩ ← readTag s gauge admitted { opening with rule := rule } text
    .ok ⟨r, Nat.le_trans hr (Text.length_drop_le _ _),
      fun hne _ => Nat.lt_of_le_of_lt hr (Text.length_drop_lt opening.positive hne)⟩
  | none => do
    let admitted ← s.limits.grant admitted
    match hl : s.rules.literalStop closes text with
    | .swallows literal closing rest =>
      .ok ⟨⟨.literal literal (some closing), rest, admitted⟩, by
        rw [← Ruleset.literalStop_swallows hl]; simp [Segment.swallowed]; omega⟩
    | .boundary literal rest =>
      .ok ⟨⟨.literal literal none, rest, admitted⟩, by
        rw [← Ruleset.literalStop_boundary hl]; simp, fun hne _ =>
        Ruleset.length_lt_of_boundary h hne hl⟩
termination_by (s.limits.depth - gauge.depth, text.length, 1)

/-- Reads segments up to the end of the source or to the close delimiter of the
enclosing tag. -/
def readLevel (s : Scanner K) (gauge : Gauge) (admitted : Nat) (closes : Text → Option Nat)
    (text : Text) : Except Error { r : ScannedLevel K // r.rest.length ≤ text.length } :=
  if hne : text = [] then .ok ⟨⟨[], none, [], admitted⟩, by simp⟩
  else do
    let ⟨r, hr⟩ ← readSegment s gauge admitted closes text
    match hs : r.segment.swallowed with
    | some closing => .ok ⟨⟨[r.segment], some closing, r.rest, r.admitted⟩, hr.1⟩
    | none =>
      have := hr.2 hne hs
      let ⟨level, hl⟩ ← readLevel s gauge r.admitted closes r.rest
      .ok ⟨level.cons r.segment, by simp only [ScannedLevel.cons]; omega⟩
termination_by (s.limits.depth - gauge.depth, text.length, 2)

end

/-- Reads the source: one segment, or the segments of the outermost level. -/
def outline (s : Scanner K) : Except Error (Outline K) := do
  let noTag : Text → Option Nat := fun _ => none
  let ⟨first, _⟩ ← s.readSegment .start 0 noTag s.source
  if first.rest = [] then .ok (.single first.segment)
  else
    let ⟨second, _⟩ ← s.readSegment .start first.admitted noTag first.rest
    let admitted ← s.limits.grant second.admitted
    let ⟨level, _⟩ ← s.readLevel .start admitted noTag second.rest
    .ok (.series first.segment second.segment level.segments)

end Scanner

end Bracketry
