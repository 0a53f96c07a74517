import Bracketry.Proofs.Delegating

/-!
# Reading a segment by positions

A token is admitted where a span starts and read to its end. If tags are read by positions as they
are read by texts, so are segments.

* `Segment.placed_append`: the token of a segment is written over the one that was admitted for it.
* `Scanner.ReadsTags`: tags are read by positions as they are read by texts.
* `Scanner.runs_segment`: then **a segment is read** as `segmentAt` says.
-/

namespace Bracketry

open Segment (spanAt)

variable {K : Type}

theorem Token.cursor_attach (t : Token K) (child : Nat) (span : Span) (emptyLiteral : Bool) :
    (t.attach child span emptyLiteral).cursor = t.cursor := by
  unfold attach
  cases emptyLiteral <;> cases t.variant <;> rfl

namespace Segment

variable (l : Layout K) (parent : Option Nat) (start next : Nat) (s : Segment K)

theorem isGroup_own : (s.own l parent start next).token.isGroup = false :=
  TokenTree.isGroup_own l ⟨s, parent, start, 0, next⟩

theorem span_own : (s.own l parent start next).token.span = some ⟨start, start + s.bytes⟩ := by
  cases s with
  | literal plain swallowed => rfl
  | tag t content closing =>
    simp only [own, Course.token, Token.span, spanAt, bytes, Nat.add_assoc]
    rfl
  | nest t seed first siblings closing =>
    simp only [own, Course.token, Token.span, spanAt, bytes, Nat.add_assoc]
    rfl

theorem swallowed_own : (s.own l parent start next).token.swallowed =
    s.swallowed.map (spanAt (start + s.bytes)) := by
  cases s <;> rfl

/-- A segment that swallows nothing leaves what is behind it to its level. -/
theorem rest_own (h : s.swallowed = none) :
    (s.own l parent start next).token.rest = some ⟨start + s.bytes, l.stop⟩ := by
  cases s with
  | literal plain swallowed =>
    cases h
    rfl
  | tag t content closing => simp only [own, Course.token, spanAt, bytes, Nat.add_assoc]
  | nest t seed first siblings closing => simp only [own, Course.token, spanAt, bytes, Nat.add_assoc]

/-- A segment that swallows the close delimiter of its level leaves nothing to it. -/
theorem rest_own_swallowed {closing : Text} (h : s.swallowed = some closing) :
    (s.own l parent start next).token.rest = some (.empty l.stop) := by
  cases s with
  | literal plain swallowed =>
    cases h
    rfl
  | tag t content closing => cases h
  | nest t seed first siblings closing => cases h

theorem emptyLiteral_own :
    ((s.own l parent start next).token.isLiteral &&
      (s.own l parent start next).token.content.all Span.isEmpty) = s.isEmptyLiteral := by
  cases s with
  | literal plain swallowed =>
    cases plain with
    | nil => simp [own, Course.token, Token.isLiteral, Span.isEmpty, Span.length, isEmptyLiteral]
    | cons c rest =>
      have hpos := c.utf8Size_pos
      simp [own, Course.token, Token.isLiteral, Span.isEmpty, Span.length, isEmptyLiteral]
      omega
  | tag t content closing => rfl
  | nest t seed first siblings closing => rfl

/-- The courses of a segment: that of its own token, and those of the tokens inside it. -/
def courses : List (Course K) := s.own l parent start (next + 1) :: s.inner l next start (next + 1)

theorem row_cons (rest : List (Segment K)) :
    inner.row l parent start next (s :: rest) = s.courses l parent start next ++
      inner.row l parent (start + s.bytes) (next + s.count) rest := rfl

theorem length_courses : (s.courses l parent start next).length = s.count :=
  length_inner l next start (next + 1) s

/-- The token of a segment is written over the one that was admitted for it. -/
theorem placed_append (tokens : List (Token K)) (t : Token K) :
    s.placed l (tokens ++ [t]) tokens.length parent start =
      tokens ++ (s.courses l parent start tokens.length).map Course.token := by
  unfold placed courses
  rw [List.set_append_right _ _ (Nat.le_refl _), Nat.sub_self, List.length_append, List.append_assoc]
  rfl

end Segment

namespace Scanner

open Walk

variable {s : Scanner K} {tokens : List (Token K)} {start : Nat} {text : Text}

/-- A group takes in a token as the child that the token is. -/
theorem runs_append {group child : Nat} {g t : Token K} {span : Span} {emptyLiteral : Bool}
    (hg : tokens[group]? = some g) (ht : tokens[child]? = some t) (hspan : t.span = some span)
    (hempty : (t.isLiteral && t.content.all Span.isEmpty) = emptyLiteral) :
    (append group child).Runs s.source tokens
      (.ok ((), tokens.set group (g.attach child span emptyLiteral))) := by
  unfold append
  refine .andThen (runs_token ht) ?_
  rw [hspan, hempty]
  exact runs_update hg rfl (Nat.le_of_eq (Token.cursor_attach ..).symm)

/-- The token that starts at a place where a tag opens. -/
theorem admits_dispatch_tag (hsane : s.Sane) (hleft : Text.Left s.source start text)
    {o : Opening K} (ho : s.rules.opening? text = some o) (parent : Option Nat) :
    s.Admits (s.dispatch (s.after start) parent) tokens (s.layout.tag parent start (o.tag text)) := by
  obtain ⟨_, _, -, -, hopens, -⟩ := Ruleset.opening?_eq_some ho
  have hmem := Ruleset.rule_mem ho
  -- the rule is asked where the text is left, and that is where its length is added
  have hfits := (hsane.fits _ hmem).opens _ _ _ hleft hopens
  have hbound := (hsane.measured _ hmem).opens _ _ (hsane.bytes_lt hleft) hopens
  have hspan : (s.after start).take o.length = spanAt start (o.tag text).opening :=
    hleft.take_eq hbound hfits
  unfold dispatch
  refine .andThen (s.runs_cut hleft.covers_all) ?_
  rw [ho]
  dsimp only
  rw [Ruleset.rule_of_opening ho]
  refine .andThen (runs_lift (.ok o.rule)) ?_
  refine .andThen (runs_take hfits hspan) ?_
  exact s.admits_addToken _

/-- The token that starts at a place where no tag opens. -/
theorem admits_dispatch_literal (hleft : Text.Left s.source start text)
    (ho : s.rules.opening? text = none) (parent : Option Nat) :
    s.Admits (s.dispatch (s.after start) parent) tokens (s.layout.literal parent start) := by
  unfold dispatch
  refine .andThen (s.runs_cut hleft.covers_all) ?_
  rw [ho]
  exact s.admits_addToken _

variable [DecidableEq K] [Taxonomy K] {g : Gauge} {id : Nat} {parent : Option Nat}
  {closes : Text → Option Nat}

/-- A literal that was admitted is read to its end. -/
theorem runs_process_literal (hsane : s.Sane)
    (hencl : Enclosed s.rules s.source tokens parent closes) (hleft : Text.Left s.source start text)
    (hid : tokens[id]? = some (s.layout.literal parent start)) :
    (s.process g id).Runs s.source tokens
      (.ok ((), ((s.rules.literalStop closes text).segment []).placed s.layout tokens id parent
        start)) := by
  have hset := getElem?_set_of_getElem? ((s.layout.literal parent start).reading (s.after start) 0) hid
  have hencl' := hencl.set ((s.layout.literal parent start).reading (s.after start) 0) hid
    fun _ h => nomatch h
  have hreading : s.Reading _ id (s.layout.literal parent start) start [] text :=
    ⟨⟨0, Nat.le_refl _, hset⟩, hleft⟩
  have hread := runs_readFrom_literal (g := g) hsane hencl' hreading tokens.length
  rw [List.set_set] at hread
  have hplaced : ((s.rules.literalStop closes text).segment []).placed s.layout tokens id parent start =
      tokens.set id (((s.rules.literalStop closes text).segment []).own s.layout parent start
        tokens.length).token := by
    unfold Segment.placed
    cases s.rules.literalStop closes text <;> exact List.append_nil _
  rw [hplaced]
  unfold process
  refine .andThen (runs_update hid rfl (Nat.le_refl _)) ?_
  refine .andThen (runs_token hset) ?_
  exact hread

/-- **Tags are read by positions as they are read by texts,** at a given depth. -/
def ReadsTags (s : Scanner K) (g : Gauge) : Prop :=
  ∀ (tokens : List (Token K)) (id : Nat) (parent : Option Nat) (start : Nat) (text : Text)
    (o : Opening K), Text.Left s.source start text → s.rules.opening? text = some o →
    tokens[id]? = some (s.layout.tag parent start (o.tag text)) →
    (s.process g id).Runs s.source tokens
      ((s.tagAt g tokens.length o text).map fun r =>
        ((), r.segment.placed s.layout tokens id parent start))

/-- **A segment is read:** its token is admitted and read to its end. -/
theorem runs_segment {β : Type} (hsane : s.Sane) (hr : s.ReadsTags g)
    (hencl : Enclosed s.rules s.source tokens parent closes) (hleft : Text.Left s.source start text)
    {next : Nat → Walk K β} {rest : Scanned K → Except Error (β × List (Token K))}
    (hnext : ∀ r, s.segmentAt g tokens.length closes text = .ok r →
      (next tokens.length).Runs s.source
        (tokens ++ (r.segment.courses s.layout parent start tokens.length).map Course.token) (rest r)) :
    (s.dispatch (s.after start) parent >>= fun id => s.process g id >>= fun _ => next id).Runs s.source
      tokens (s.segmentAt g tokens.length closes text >>= rest) := by
  cases ho : s.rules.opening? text with
  | some o =>
    rw [segmentAt_of_opening ho] at hnext ⊢
    rw [bind_assoc]
    refine (admits_dispatch_tag hsane hleft ho parent).bind ?_
    intro hgrant
    have hid : (tokens ++ [s.layout.tag parent start (o.tag text)])[tokens.length]? =
        some (s.layout.tag parent start (o.tag text)) := List.getElem?_concat_length
    have hprocess := hr _ tokens.length parent start text o hleft ho hid
    rw [List.length_append] at hprocess
    refine .bind hprocess ?_
    intro r htag
    dsimp only
    rw [Segment.placed_append]
    refine hnext r ?_
    rw [hgrant]
    exact htag
  | none =>
    obtain ⟨plain, swallowed, left, hsegment, hread⟩ : ∃ plain swallowed left,
        ((s.rules.literalStop closes text).segment [] : Segment K) = .literal plain swallowed ∧
        SegmentRead s.rules closes text (.literal plain swallowed) left := by
      cases hl : s.rules.literalStop closes text with
      | swallows plain closing left => exact ⟨plain, some closing, left, rfl, .swallows ho hl⟩
      | boundary plain left => exact ⟨plain, none, left, rfl, .literal ho hl⟩
    rw [segmentAt_of_literal hread] at hnext ⊢
    rw [bind_assoc]
    refine (admits_dispatch_literal hleft ho parent).bind ?_
    intro hgrant
    have hid : (tokens ++ [s.layout.literal parent start])[tokens.length]? =
        some (s.layout.literal parent start) := List.getElem?_concat_length
    have hprocess := runs_process_literal (g := g) hsane (hencl.append _) hleft hid
    rw [hsegment, Segment.placed_append] at hprocess
    refine .andThen hprocess ?_
    refine hnext ⟨.literal plain swallowed, left, tokens.length + 1⟩ ?_
    rw [hgrant]
    rfl

end Scanner

end Bracketry
