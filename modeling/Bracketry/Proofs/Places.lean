import Bracketry.Proofs.Spans

/-!
# Where segments are read

A site stands where its segment was read: what the source has left from there on is the
text that the segment was read from. So what a rule said about a text while the source
was scanned, it says about the place of a site.

* `Outline.Sited.read_on`: **the segment of a site was read where the site starts,** on the
  level of the tag that holds it.
* `TokenTree.Drawn.kind_eq`: a token is of the kind of literals or of the kind of a rule,
  unless it is a group.
-/

namespace Bracketry

variable {K : Type} {rules : Ruleset K}

/-- A segment is read at a position of the source, on a level with a given close
delimiter. -/
def ReadAt (rules : Ruleset K) (source : Text) (closes : Text → Option Nat) (start : Nat)
    (s : Segment K) : Prop :=
  ∃ before text rest, source = before ++ text ∧ Text.bytes before = start ∧
    SegmentRead rules closes text s rest

/-- A tag with tags inside is read at a position of the source: its open delimiter and
its seed, the first tag inside, and the level after that. -/
structure NestAt (rules : Ruleset K) (source : Text) (start : Nat) (tag : Tag K) (seed : Text)
    (first : Segment K) (siblings : List (Segment K)) (closing : Text)
    (before mid after rest : Text) (inner : Opening K) : Prop where
  source_eq : source = before ++ tag.opening ++ seed ++ mid
  start_eq : Text.bytes before = start
  rule : rules.rules[tag.index]? = some tag.rule
  stop : rules.contentStop tag.closes (seed ++ mid) = .opens seed inner mid
  first : TagRead rules inner mid first after
  siblings : LevelRead rules tag.closes after siblings (some closing) rest

variable {source : Text} {closes : Text → Option Nat}

theorem ReadAt.nest {start : Nat} {tag : Tag K} {seed closing : Text} {first : Segment K}
    {siblings : List (Segment K)}
    (h : ReadAt rules source closes start (.nest tag seed first siblings closing)) :
    ∃ before mid after rest inner,
      NestAt rules source start tag seed first siblings closing before mid after rest inner := by
  obtain ⟨before, text, rest, hsource, hstart, hr⟩ := h
  cases hr with
  | @tag o _ _ ho ht =>
    cases ht with
    | @nest _ inner _ _ mid after _ _ _ _ hstop hf hl =>
      have htext := (Opening.text_of_opens hstop).1
      have hseed := (Ruleset.contentStop_opens hstop).1
      refine ⟨before, mid, after, rest, inner, ?_, hstart, Ruleset.getElem?_index ho, ?_, hf, hl⟩
      · have hparts : before ++ ((o.tag text).opening ++ seed ++ mid) = source := by
          rw [htext, hsource]
        rw [← hparts]
        simp only [List.append_assoc]
      · rw [hseed]
        exact hstop

/-- The segments of a level are read one after the other. -/
theorem LevelRead.readAt_row {segments : List (Segment K)} {before text rest : Text} {closing : Option Text}
    (h : LevelRead rules closes text segments closing rest) (hsource : source = before ++ text)
    (parent : Option Nat) (next : Nat) :
    ∀ site ∈ Site.row parent (Text.bytes before) next segments,
      ReadAt rules source closes site.start site.segment := by
  induction segments generalizing before text next with
  | nil =>
    intro site hs
    cases hs
  | cons s segments ih =>
    obtain ⟨mid, hs, htail⟩ := h.head_tail
    intro site hmem
    rcases List.mem_cons.1 hmem with rfl | hmem
    · exact ⟨before, text, mid, hsource, rfl, hs⟩
    · rcases htail with rfl | ⟨-, htext, hl⟩
      · cases hmem
      · -- what is before the segment moves to what is before the others
        have hbefore : source = (before ++ s.text) ++ mid := by
          rw [hsource, ← htext, List.append_assoc]
        refine ih hl hbefore (next + s.count) site ?_
        rwa [Text.bytes_append, Segment.bytes_text]

namespace Outline

variable {o : Outline K}

theorem readAt_top (h : OutlineRead rules source o) {site : Site K} (hs : site ∈ o.sites) :
    ReadAt rules source noTag site.start site.segment := by
  cases h with
  | single h1 =>
    obtain rfl := List.mem_singleton.1 hs
    exact ⟨[], source, [], rfl, rfl, h1⟩
  | @series first second mid after more h1 hmid h2 hl =>
    have e1 := h1.text_eq
    have e2 := h2.text_eq
    rw [h1.swallowed_noTag] at e1
    rw [h2.swallowed_noTag] at e2
    simp only [Option.getD_none, List.append_nil] at e1 e2
    rcases List.mem_append.1 hs with hs | hs
    · rcases List.mem_cons.1 hs with rfl | hs
      · exact ⟨[], source, mid, rfl, rfl, h1⟩
      · obtain rfl := List.mem_singleton.1 hs
        exact ⟨first.text, mid, after, e1.symm, by simp [Segment.bytes_text], h2⟩
    · have hbefore : source = (first.text ++ second.text) ++ after := by
        rw [List.append_assoc, e2, e1]
      refine hl.readAt_row hbefore none (first.count + second.count + 1) site ?_
      rwa [Text.bytes_append, Segment.bytes_text, Segment.bytes_text]

/-- The close delimiter of the level that a site stands on: that of the tag that holds the
site, and none on the outermost level. -/
inductive LevelOf (o : Outline K) : Site K → (Text → Option Nat) → Prop
  | top {site : Site K} : site ∈ o.sites → LevelOf o site noTag
  | part {t : Tag K} {seed closing : Text} {first : Segment K} {siblings : List (Segment K)}
      {parent : Option Nat} {start id next : Nat} {site : Site K} :
      o.Sited ⟨.nest t seed first siblings closing, parent, start, id, next⟩ →
      site ∈ Site.parts ⟨.nest t seed first siblings closing, parent, start, id, next⟩ →
      LevelOf o site t.closes

/-- **The segment of a site was read where the site starts,** on the level of the tag that
holds it. -/
theorem Sited.read_on (h : OutlineRead rules source o) {site : Site K} (hs : o.Sited site) :
    ∃ closes, o.LevelOf site closes ∧ ReadAt rules source closes site.start site.segment := by
  induction hs with
  | top hmem => exact ⟨noTag, .top hmem, readAt_top h hmem⟩
  | @part outer site houter hmem ih =>
    obtain ⟨segment, parent, start, id, next⟩ := outer
    obtain ⟨closes, -, hread⟩ := ih
    cases segment with
    | literal plain swallowed => cases hmem
    | tag t content closing => cases hmem
    | nest t seed first siblings closing =>
      obtain ⟨before, mid, after, rest, inner, hn⟩ := hread.nest
      have hinner : rules.opening? mid = some inner := (Ruleset.contentStop_opens hn.stop).2
      have hplace : Text.bytes (before ++ t.opening ++ seed) =
          start + Text.bytes t.opening + Text.bytes seed := by
        rw [Text.bytes_append, Text.bytes_append, hn.start_eq]
      refine ⟨t.closes, .part houter hmem, ?_⟩
      rcases List.mem_cons.1 hmem with rfl | hmem
      · exact ⟨_, mid, after, hn.source_eq, hplace, .tag hinner hn.first⟩
      · have hbefore : source = (before ++ t.opening ++ seed ++ first.text) ++ after := by
          rw [hn.source_eq, ← hn.first.text_eq]
          simp only [List.append_assoc]
        refine hn.siblings.readAt_row hbefore (some id) (next + 2 + first.count) site ?_
        rwa [Text.bytes_append, hplace, Segment.bytes_text]

theorem Sited.read (h : OutlineRead rules source o) {site : Site K} (hs : o.Sited site) :
    ∃ closes, ReadAt rules source closes site.start site.segment := by
  obtain ⟨closes, -, hread⟩ := hs.read_on h
  exact ⟨closes, hread⟩

end Outline

/-! ## Tags with and without tags inside -/

/-- A segment is a tag around some content, plain or with tags in it. -/
inductive Segment.Wraps : Segment K → Tag K → Text → Text → Prop
  | tag (t : Tag K) (content closing : Text) : Wraps (.tag t content closing) t content closing
  | nest (t : Tag K) (seed : Text) (first : Segment K) (siblings : List (Segment K))
      (closing : Text) :
      Wraps (.nest t seed first siblings closing) t (seed ++ first.text ++ texts siblings) closing

theorem Segment.Wraps.text_eq {s : Segment K} {t : Tag K} {content closing : Text}
    (h : s.Wraps t content closing) : s.text = t.opening ++ content ++ closing := by
  cases h with
  | tag _ _ _ => rw [Segment.text_tag]
  | nest _ _ _ _ _ => rw [Segment.text_nest]

/-- A tag is read where its rule opens it. -/
theorem SegmentRead.opened {text rest : Text} {s : Segment K} {t : Tag K} {content closing : Text}
    (h : SegmentRead rules closes text s rest) (hw : s.Wraps t content closing) :
    ∃ o, rules.opening? text = some o ∧ t = o.tag text := by
  cases h with
  | swallows _ _ => cases hw
  | literal _ _ => cases hw
  | tag ho ht =>
    cases ht with
    | plain _ => cases hw; exact ⟨_, ho, rfl⟩
    | nest _ _ _ => cases hw; exact ⟨_, ho, rfl⟩

/-- The token of a tag that starts at `start`: its delimiters and its content stand in a
row. -/
structure Tag.TokenAt (tag : Tag K) (inside ending : Text) (start : Nat) (token : Token K) :
    Prop where
  variant : token.variant = .tag tag.index
  kind : token.kind = tag.rule.kind
  opening : token.opening = some (Segment.spanAt start tag.opening)
  content : token.content = some (Segment.spanAt (start + Text.bytes tag.opening) inside)
  closing : token.closing =
    some (Segment.spanAt (start + Text.bytes tag.opening + Text.bytes inside) ending)
  extra : token.extra = tag.extra inside

theorem Segment.Wraps.tokenAt (l : Layout K) {site : Site K} {tag : Tag K} {content closing : Text}
    (h : site.segment.Wraps tag content closing) :
    tag.TokenAt content closing site.start (site.own l).token := by
  obtain ⟨segment, parent, start, id, next⟩ := site
  cases h with
  | tag _ _ _ => exact ⟨rfl, rfl, rfl, rfl, rfl, rfl⟩
  | nest _ seed first siblings _ =>
    have hlen : Text.bytes (seed ++ first.text ++ Segment.texts siblings) =
        Text.bytes seed + first.bytes + Segment.bytes.total siblings := by
      simp [Segment.bytes_text, Segment.bytes_texts, Nat.add_assoc]
    refine ⟨rfl, rfl, rfl, ?_, ?_, ?_⟩
    · rw [Segment.spanAt, hlen]
      rfl
    · rw [hlen]
      rfl
    · rw [List.append_assoc, ← Segment.textThen_eq]
      rfl

namespace TokenTree

variable {t : TokenTree K} {o : Outline K}

/-- The token of a tag has the texts of its open delimiter and of its content. -/
theorem Drawn.slices_tag (h : t.Drawn rules o) {site : Site K} (hs : o.Sited site) {tag : Tag K}
    {content closing : Text} (hw : site.segment.Wraps tag content closing) :
    t.slice (site.own (layout rules t.source)).token.opening = tag.opening ∧
      t.content (site.own (layout rules t.source)).token = content := by
  have hc := hs.covers
  rw [h.text_eq, hw.text_eq, List.append_assoc] at hc
  obtain ⟨hopening, hafter⟩ := Span.Covers.split site.start hc
  have hcontent := (Span.Covers.split _ hafter).1
  have htoken := hw.tokenAt (layout rules t.source)
  rw [TokenTree.content, htoken.opening, htoken.content]
  exact ⟨hopening.slice_eq, hcontent.slice_eq⟩

/-- The rule of a tag is found under the number that its token keeps. -/
theorem Drawn.rule_of_tag (h : t.Drawn rules o) {site : Site K} (hs : o.Sited site) {tag : Tag K}
    {content closing : Text} (hw : site.segment.Wraps tag content closing) :
    rules.rules[tag.index]? = some tag.rule := by
  obtain ⟨closes, before, text, rest, -, -, hr⟩ := hs.read h.read
  obtain ⟨opening, hopening, rfl⟩ := hr.opened hw
  exact Ruleset.getElem?_index hopening

/-- **A token is a literal, a tag of some rule, or a group,** by its kind. -/
theorem Drawn.kind_eq (h : t.Drawn rules o) {i : Nat} {token : Token K}
    (hi : t.tokens[i]? = some token) (hgroup : token.isGroup = false) :
    token.kind = rules.literalKind ∨ ∃ rule ∈ rules.rules, token.kind = rule.kind := by
  obtain ⟨c, hc, rfl⟩ := h.token_stands hi
  cases hc with
  | seed _ => exact .inl rfl
  | @group tag seed closing first siblings parent start id next _ =>
    have hab := Site.abut_nest tag seed closing first siblings parent start id next
    rw [Course.token_group _ _ hab] at hgroup
    cases hgroup
  | root _ =>
    rw [Course.token_group _ _ o.abut_sites] at hgroup
    cases hgroup
  | @own site hs =>
    obtain ⟨closes, before, text, rest, -, -, hr⟩ := hs.read h.read
    obtain ⟨segment, parent, start, id, next⟩ := site
    cases segment with
    | literal plain swallowed => exact .inl rfl
    | tag tag content closing =>
      cases hr with
      | tag ho ht =>
        cases ht
        exact .inr ⟨_, List.mem_of_getElem? (Ruleset.getElem?_index ho), rfl⟩
    | nest tag seed first siblings closing =>
      cases hr with
      | tag ho ht =>
        cases ht
        exact .inr ⟨_, List.mem_of_getElem? (Ruleset.getElem?_index ho), rfl⟩

end TokenTree

end Bracketry
