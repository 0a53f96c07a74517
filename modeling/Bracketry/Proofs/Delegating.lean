import Bracketry.Proofs.Runs
import Bracketry.Proofs.Strides

/-!
# Reading a tag by positions

A tag is read up to its close delimiter, or up to a tag that opens inside. There it delegates the
rest of its content, and goes on behind the level that was read. What the delegation has to come to
is taken as given here.

* `Scanner.conclude`, `Scanner.inside`: what a tag answers, by where its content stops.
* `Scanner.Delegates`: the delegation comes to what `inside` says.
* `Scanner.runs_readFrom_tag`: then **a tag is read** as `contentStop` says.
-/

namespace Bracketry

open Segment (spanAt)

variable {K : Type}

/-- The token of a tag when it is admitted. -/
def Layout.tag (l : Layout K) (parent : Option Nat) (start : Nat) (tag : Tag K) : Token K :=
  .tag tag.rule.kind tag.index ⟨start, l.stop⟩ (spanAt start tag.opening) parent

namespace Segment

/-- The tokens when the token of a segment and those inside it were written. -/
def placed (l : Layout K) (tokens : List (Token K)) (id : Nat) (parent : Option Nat) (start : Nat)
    (s : Segment K) : List (Token K) :=
  tokens.set id (s.own l parent start tokens.length).token ++
    (s.inner l id start tokens.length).map Course.token

/-- How the tag of a segment goes on behind the level to which it delegated its content. -/
def delegation (l : Layout K) (start next : Nat) : Segment K → Step
  | .nest t seed first siblings closing =>
    let body := start + Text.bytes t.opening
    let length := Text.bytes seed + first.bytes + bytes.total siblings
    let closing := spanAt (body + length) closing
    .delegate ⟨⟨body + Text.bytes seed, l.stop⟩, some (next + 2), some closing⟩ length closing
  | _ => .goOn

end Segment

namespace Scanner

variable [DecidableEq K] [Taxonomy K]

/-- The level to which a tag delegates its content: the tag `inner` that opens it, and what follows
up to the close delimiter of the outer tag. The seed and the group are admitted before anything is
read. -/
def nested (s : Scanner K) (g : Gauge) (n : Nat) (closes : Text → Option Nat) (inner : Opening K)
    (mid : Text) : Except Error (Scanned K × ScannedLevel K) := do
  let n ← s.limits.grant n
  let n ← s.limits.grant n
  let first ← s.tagAt g n inner mid
  let level ← s.levelAt g first.admitted closes first.rest
  .ok (first, level)

/-- What a tag answers that delegates its content behind `seed`, where `inner` opens. -/
def inside (s : Scanner K) (g : Gauge) (n : Nat) (tag : Tag K) (text seed : Text) (inner : Opening K)
    (mid : Text) : Except Error (Scanned K) := do
  g.enter.check s.limits.depth
  let n ← s.limits.grant n
  let r ← s.nested g.enter n tag.closes inner mid
  s.around tag text seed r.1.segment r.2

variable {s : Scanner K} {g : Gauge} {n : Nat} {o inner : Opening K} {tag : Tag K}
  {closes : Text → Option Nat} {text seed read mid : Text}

/-- An answer that succeeds is a good one. -/
theorem Answers.good {α : Type} {good : α → Prop} {left : Tag K → Text → Prop} {x : Except Error α}
    {a : α} (h : s.Answers good left x) (ha : x = .ok a) : good a := by
  cases h with
  | ok hgood => cases ha; exact hgood
  | unclosed _ => cases ha
  | limit _ => cases ha

theorem segmentRead_of_segmentAt {r : Scanned K} (h : s.segmentAt g n closes text = .ok r) :
    SegmentRead s.rules closes text r.segment r.rest ∧ r.admitted = n + r.segment.count := by
  obtain ⟨a, ha, rfl⟩ := exists_of_map_eq_ok h
  exact (s.readSegment_answers g n closes text).good ha

end Scanner

/-! ## Reading a tag -/

namespace Scanner

open Walk

/-- The tokens when the reading of a tag got somewhere. -/
abbrev caughtUpTag (s : Scanner K) (tokens : List (Token K)) (id : Nat) (parent : Option Nat)
    (start : Nat) (tag : Tag K) (read : Text) : List (Token K) :=
  s.caughtUp tokens id (s.layout.tag parent start tag) (start + Text.bytes tag.opening) read

variable {s : Scanner K} {tag : Tag K} {tokens : List (Token K)} {id start n : Nat}
  {parent : Option Nat} {read text whole : Text} {inner : Opening K} {g : Gauge}

section HasToken

variable {t : Token K} (h : tag.HasToken s.rules s.source start t)

include h

theorem HasToken.reading (body : Span) (cursor : Nat) :
    tag.HasToken s.rules s.source start (t.reading body cursor) :=
  ⟨h.rule, h.variant, h.kind, h.stream, h.opening, h.covers⟩

theorem HasToken.delegate (level : Level) : tag.HasToken s.rules s.source start (t.delegate level) :=
  ⟨h.rule, h.variant, h.kind, h.stream, h.opening, h.covers⟩

theorem HasToken.finish (content closing rest : Span) :
    tag.HasToken s.rules s.source start (t.finish content closing rest) :=
  ⟨h.rule, h.variant, h.kind, h.stream, h.opening, h.covers⟩

end HasToken

variable [DecidableEq K] [Taxonomy K]

/-- Wherever a tag opens in a tag that is being read, the rest of its content is delegated: what is
inside is read, and its tokens come behind those that there were. -/
def Delegates (s : Scanner K) (g : Gauge) (tokens : List (Token K)) (id : Nat) (parent : Option Nat)
    (start : Nat) (tag : Tag K) (whole : Text) : Prop :=
  ∀ (read mid : Text) (inner : Opening K),
    Text.Left s.source (start + Text.bytes tag.opening) (read ++ mid) →
    s.rules.opening? mid = some inner →
    (s.delegate g id (s.after (start + Text.bytes tag.opening)) (Text.bytes read)).Runs s.source
      (s.caughtUpTag tokens id parent start tag read)
      ((s.inside g tokens.length tag whole read inner mid).map fun r =>
        (r.segment.delegation s.layout start tokens.length,
          s.caughtUpTag tokens id parent start tag read ++
            (r.segment.inner s.layout id start tokens.length).map Course.token))

theorem Delegates.caughtUp (h : s.Delegates g tokens id parent start tag whole) (read : Text) :
    s.Delegates g (s.caughtUpTag tokens id parent start tag read) id parent start tag whole := by
  intro read' mid inner hleft hinner
  have hrun := h read' mid inner hleft hinner
  simpa only [caughtUpTag, caughtUp_caughtUp, length_caughtUp] using hrun

end Scanner

end Bracketry
