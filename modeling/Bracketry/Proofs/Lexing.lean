import Bracketry.Proofs.Ancestry
import Bracketry.Proofs.Priority

/-!
# Tokens are what the rules say

What a scan recorded in its tokens is what the rules answer about the source at the places
where the tokens stand. A tag has the rule that opens first where it starts, and the close
delimiter that this rule reports where its content ends. Plain text is plain everywhere: at
none of its characters does a tag open, nor the tag around it close.

* `literalStop_plain`, `contentStop_plain`: what is read as plain text is plain.
* `TokenTree.Lexed`: what the rules say of a tag token.
* `scan_lexes`: **every token of a scanned tree is what the rules say of its place.**
-/

namespace Bracketry

variable {K : Type} {rules : Ruleset K} {closes : Text → Option Nat}

open Segment (spanAt)

/-! ## Plain text -/

/-- At no character of a text with `rest` behind it does a tag open or the given close
delimiter stand. -/
def Plain (rules : Ruleset K) (closes : Text → Option Nat) (plain rest : Text) : Prop :=
  ∀ before c after, plain = before ++ c :: after →
    rules.opening? (c :: after ++ rest) = none ∧ closes (c :: after ++ rest) = none

theorem Plain.nil (rest : Text) : Plain rules closes [] rest := by
  intro before c after h
  simp at h

theorem Plain.cons {c : Char} {plain rest : Text} (ho : rules.opening? (c :: plain ++ rest) = none)
    (hc : closes (c :: plain ++ rest) = none) (h : Plain rules closes plain rest) :
    Plain rules closes (c :: plain) rest := by
  intro before d after heq
  cases before with
  | nil =>
    obtain ⟨rfl, rfl⟩ := List.cons.inj heq
    exact ⟨ho, hc⟩
  | cons b before =>
    obtain ⟨-, htail⟩ := List.cons.inj heq
    exact h before d after htail

/-- **A literal is plain** up to where it stops. -/
theorem literalStop_plain (rules : Ruleset K) (closes : Text → Option Nat) (text : Text) :
    match rules.literalStop closes text with
    | .swallows plain closing rest => Plain rules closes plain (closing ++ rest)
    | .boundary plain rest => Plain rules closes plain rest := by
  induction text with
  | nil =>
    unfold Ruleset.literalStop
    cases closes [] <;> exact .nil _
  | cons c r ih =>
    have htext := rules.literalStop_text closes r
    unfold Ruleset.literalStop
    cases hc : closes (c :: r) with
    | some n => exact .nil _
    | none =>
      cases ho : rules.opening? (c :: r) with
      | some o =>
        simp only [ho, Option.isSome_some, if_true]
        exact .nil _
      | none =>
        simp only [ho, Option.isSome_none, Bool.false_eq_true, if_false]
        cases hr : rules.literalStop closes r with
        | swallows plain closing rest =>
          rw [hr] at ih htext
          have hr' : plain ++ (closing ++ rest) = r := by
            rw [← List.append_assoc]
            exact htext
          refine Plain.cons ?_ ?_ ih
          · rw [List.cons_append, hr']; exact ho
          · rw [List.cons_append, hr']; exact hc
        | boundary plain rest =>
          rw [hr] at ih htext
          have hr' : plain ++ rest = r := htext
          refine Plain.cons ?_ ?_ ih
          · rw [List.cons_append, hr']; exact ho
          · rw [List.cons_append, hr']; exact hc

/-- **The content of a tag is plain** up to where the tag closes or another one opens. -/
theorem contentStop_plain (rules : Ruleset K) (closes : Text → Option Nat) (text : Text) :
    match rules.contentStop closes text with
    | .closed content closing rest => Plain rules closes content (closing ++ rest)
    | .opens content _ rest => Plain rules closes content rest
    | .missing => True := by
  have h := literalStop_plain rules closes text
  rw [literalStop_eq] at h
  cases hs : rules.contentStop closes text with
  | closed content closing rest => rw [hs] at h; exact h
  | opens content inner rest => rw [hs] at h; exact h
  | missing => trivial

/-- A span of the source holds plain text: at no character that it covers does a tag open
or the given close delimiter stand. -/
def Quiet (rules : Ruleset K) (closes : Text → Option Nat) (source : Text) (span : Span) : Prop :=
  ∀ before c after, source = before ++ c :: after → span.start ≤ Text.bytes before →
    Text.bytes before < span.stop → rules.opening? (c :: after) = none ∧ closes (c :: after) = none

/-- A position of the source that is not before a text lies behind some part of it. -/
theorem Text.split_of_le {before text before' after : Text}
    (h : before ++ text = before' ++ after) (hle : bytes before ≤ bytes before') :
    ∃ mid, before' = before ++ mid ∧ text = mid ++ after := by
  rcases List.append_eq_append_iff.1 h with ⟨mid, hbefore, htext⟩ | ⟨mid, hbefore, hafter⟩
  · exact ⟨mid, hbefore, htext⟩
  · -- the text would begin behind the position, by nothing at all
    have hbytes := congrArg bytes hbefore
    rw [bytes_append] at hbytes
    have hmid : mid = [] := by
      by_contra hne
      have hpos := Text.bytes_pos hne
      omega
    subst hmid
    exact ⟨[], by simpa using hbefore.symm, by simpa using hafter.symm⟩

/-- Plain text at a position of the source is plain at every character. -/
theorem Plain.quiet {source before plain rest : Text} {start : Nat}
    (h : Plain rules closes plain rest) (hsource : source = before ++ (plain ++ rest))
    (hstart : Text.bytes before = start) : Quiet rules closes source (spanAt start plain) := by
  intro before' c after hsource' hle hlt
  dsimp only [spanAt] at hle hlt
  obtain ⟨mid, hbefore', hplain⟩ :=
    Text.split_of_le (hsource.symm.trans hsource') (by omega)
  have hmid : Text.bytes mid < Text.bytes plain := by
    rw [hbefore', Text.bytes_append] at hlt
    omega
  -- the character lies in the plain text, not in the rest
  rcases List.append_eq_append_iff.1 hplain with ⟨more, hmore, -⟩ | ⟨tail, htail, hrest⟩
  · have hbytes := congrArg Text.bytes hmore
    rw [Text.bytes_append] at hbytes
    omega
  · cases tail with
    | nil =>
      rw [List.append_nil] at htail
      rw [htail] at hmid
      omega
    | cons d tail =>
      rw [List.cons_append] at hrest
      obtain ⟨rfl, rfl⟩ := List.cons.inj hrest
      exact h mid c tail htail

/-! ## Delimiters -/

theorem closes_cut {text : Text} {n : Nat} (h : closes text = some n) :
    closes (Text.take n text ++ Text.drop n text) = some n ∧
      Text.take n text = Text.take n (Text.take n text ++ Text.drop n text) := by
  rw [Text.take_append_drop]
  exact ⟨h, rfl⟩

/-- A literal swallows the close delimiter that stands where it stops. -/
theorem closes_of_swallows {text plain closing rest : Text}
    (h : rules.literalStop closes text = .swallows plain closing rest) :
    ∃ n, closes (closing ++ rest) = some n ∧ closing = Text.take n (closing ++ rest) := by
  induction text generalizing plain with
  | nil =>
    unfold Ruleset.literalStop at h
    split at h
    · next n hc =>
      cases h
      exact ⟨n, closes_cut hc⟩
    · cases h
  | cons c r ih =>
    unfold Ruleset.literalStop at h
    split at h
    · next n hc =>
      cases h
      exact ⟨n, closes_cut hc⟩
    · dsimp only at h
      split at h
      · cases h
      · cases hr : rules.literalStop closes r with
        | swallows a b d => rw [hr] at h; cases h; exact ih hr
        | boundary a b => rw [hr] at h; cases h

theorem closes_of_closed {text content closing rest : Text}
    (h : rules.contentStop closes text = .closed content closing rest) :
    ∃ n, closes (closing ++ rest) = some n ∧ closing = Text.take n (closing ++ rest) := by
  have hstop : rules.literalStop closes text = .swallows content closing rest := by
    rw [literalStop_eq, h]
  exact closes_of_swallows hstop

/-- A level ends with the close delimiter that stands there. -/
theorem LevelRead.closes_closing {text closing rest : Text} {segments : List (Segment K)}
    (h : LevelRead rules closes text segments (some closing) rest) :
    ∃ n, closes (closing ++ rest) = some n ∧ closing = Text.take n (closing ++ rest) := by
  induction segments generalizing text with
  | nil => cases h
  | cons s segments ih =>
    cases h with
    | swallows _ _ hs => exact closes_of_swallows hs
    | literal _ _ _ hl => exact ih hl
    | tag _ _ _ hl => exact ih hl

/-- **A tag is what its rule says** of the text that it is read from: it is opened where it
starts and closed where its content ends. -/
theorem SegmentRead.wraps {text rest : Text} {s : Segment K} {t : Tag K} {content closing : Text}
    (h : SegmentRead rules closes text s rest) (hw : s.Wraps t content closing) :
    ∃ o n, rules.opening? text = some o ∧ t = o.tag text ∧
      text = t.opening ++ (content ++ (closing ++ rest)) ∧
      t.closes (closing ++ rest) = some n ∧ closing = Text.take n (closing ++ rest) := by
  obtain ⟨o, ho, ht⟩ := h.opened hw
  have htext : text = t.opening ++ (content ++ (closing ++ rest)) := by
    have hcover := h.text_eq
    have hswallowed : s.swallowed = none := by cases hw <;> rfl
    rw [hw.text_eq, hswallowed] at hcover
    rw [← hcover]
    simp
  cases h with
  | swallows _ _ => cases hw
  | literal _ _ => cases hw
  | tag _ htag =>
    cases htag with
    | plain hs =>
      cases hw
      obtain ⟨n, hn, hclosing⟩ := closes_of_closed hs
      exact ⟨o, n, ho, ht, htext, hn, hclosing⟩
    | nest _ _ hl =>
      cases hw
      obtain ⟨n, hn, hclosing⟩ := hl.closes_closing
      exact ⟨o, n, ho, ht, htext, hn, hclosing⟩

/-- A length that ends between two characters of a text, or beyond its end. -/
def Text.Boundary (text : Text) (n : Nat) : Prop :=
  (∃ before after, text = before ++ after ∧ bytes before = n) ∨ bytes text ≤ n

theorem Text.take_eq_self {text : Text} {n : Nat} (h : bytes text ≤ n) : take n text = text := by
  induction text generalizing n with
  | nil => exact take_nil n
  | cons c r ih =>
    have hc := c.utf8Size_pos
    rw [bytes_cons] at h
    cases n with
    | zero => omega
    | succ n => rw [take, ih (by omega)]

theorem Text.bytes_take {text : Text} {n : Nat} (h : Boundary text n) :
    bytes (take n text) = min n (bytes text) := by
  rcases h with ⟨before, after, rfl, rfl⟩ | hle
  · rw [take_bytes_append, bytes_append]
    omega
  · rw [take_eq_self hle]
    omega

namespace TokenTree

variable {t : TokenTree K} {o : Outline K}

/-- A span is that of a delimiter at a position, `n` bytes long by the report of its rule.
It covers what the source has of them: it is clamped to the end of the source. -/
structure Delimits (t : TokenTree K) (span : Option Span) (pos n : Nat) : Prop where
  covers : span = some (spanAt pos (Text.take n (Text.drop pos t.source)))
  clamped : Text.Boundary (Text.drop pos t.source) n →
    span = some (Span.clamp ⟨pos, Text.bytes t.source⟩ n)

theorem delimits_of_text {before text : Text} {pos n : Nat} (hsource : t.source = before ++ text)
    (hpos : Text.bytes before = pos) :
    t.Delimits (some (spanAt pos (Text.take n text))) pos n := by
  have hdrop : Text.drop pos t.source = text := by
    rw [hsource, ← hpos, Text.drop_bytes_append]
  refine ⟨by rw [hdrop], ?_⟩
  intro hb
  rw [hdrop] at hb
  have hlen := Text.bytes_take hb
  have hbytes : Text.bytes t.source = pos + Text.bytes text := by
    rw [hsource, Text.bytes_append, hpos]
  have hstop : pos + min n (Text.bytes text) = min (pos + n) (pos + Text.bytes text) := by omega
  rw [spanAt, Span.clamp, hbytes, hlen, hstop]

/-! ## The tokens of a tree -/

/-- **What the rules say of a tag token** that starts at `start` and closes at `pos`: the
opening `o` is the first that the rules find where the token starts, and its rule reports a
close delimiter of `n` bytes where the content ends. -/
structure Lexed (rules : Ruleset K) (t : TokenTree K) (token : Token K) (o : Opening K)
    (start pos n : Nat) : Prop where
  start_eq : token.span.map Span.start = some start
  opens : rules.opening? (Text.drop start t.source) = some o
  variant : token.variant = .tag o.index
  kind : token.kind = o.rule.kind
  opening : t.Delimits token.opening start o.length
  closes : o.rule.closes (t.slice token.opening) (Text.drop pos t.source) = some n
  closing : t.Delimits token.closing pos n
  extra : token.extra = o.rule.extra (t.slice token.opening) (t.content token)

/-- The close delimiter of the tag that encloses a token. -/
inductive Enclosed (rules : Ruleset K) (t : TokenTree K) (token : Token K) :
    (Text → Option Nat) → Prop
  | top : token.parent = none → Enclosed rules t token noTag
  | tag {p index : Nat} {tag : Token K} {rule : Rule K} :
      token.parent = some p → t.tokens[p]? = some tag → tag.variant = .tag index →
      rules.rules[index]? = some rule →
      Enclosed rules t token (rule.closes (t.slice tag.opening))

/-- **The token of a tag is what the rules say of its place.** -/
theorem Drawn.lexed (h : t.Drawn rules o) {site : Site K} (hs : o.Sited site) {tag : Tag K}
    {content closing : Text} (hw : site.segment.Wraps tag content closing) :
    ∃ opening pos n, t.Lexed rules (site.own (layout rules t.source)).token opening site.start pos n ∧
      opening.rule.closes (t.slice (site.own (layout rules t.source)).token.opening) =
        tag.closes := by
  obtain ⟨closes, before, text, rest, hsource, hstart, hr⟩ := hs.read h.read
  obtain ⟨opening, n, hopening, rfl, htext, hn, hclosing⟩ := hr.wraps hw
  obtain ⟨hslice, hcontent⟩ := h.slices_tag hs hw
  have hspan := (h.text_own hs).2
  have hdrop : Text.drop site.start t.source = text := by
    rw [hsource, ← hstart, Text.drop_bytes_append]
  -- the close delimiter stands behind the open delimiter and the content
  have hpos : Text.bytes (before ++ ((opening.tag text).opening ++ content)) =
      site.start + Text.bytes (opening.tag text).opening + Text.bytes content := by
    rw [Text.bytes_append, Text.bytes_append, hstart, Nat.add_assoc]
  have hsource' : t.source =
      before ++ ((opening.tag text).opening ++ content) ++ (closing ++ rest) := by
    rw [hsource]
    conv => lhs; rw [htext]
    simp only [List.append_assoc]
  have hclose : Text.drop (site.start + Text.bytes (opening.tag text).opening + Text.bytes content)
      t.source = closing ++ rest := by
    rw [← hpos, hsource', Text.drop_bytes_append]
  have hopens := delimits_of_text (n := opening.length) hsource hstart
  have hcloses := delimits_of_text (n := n) hsource' hpos
  rw [← hclosing] at hcloses
  have htoken := hw.tokenAt (layout rules t.source)
  refine ⟨opening, site.start + Text.bytes (opening.tag text).opening + Text.bytes content, n,
    ⟨?_, ?_, htoken.variant, htoken.kind, ?_, ?_, ?_, ?_⟩, ?_⟩
  · rw [hspan]
    rfl
  · rw [hdrop, hopening]
  · rw [htoken.opening]
    exact hopens
  · rw [hslice, hclose]
    exact hn
  · rw [htoken.closing]
    exact hcloses
  · rw [hslice, hcontent, htoken.extra]
    rfl
  · rw [hslice]
    rfl

/-- The tag that encloses a token is found through the parent of the token. -/
theorem Drawn.enclosed_by (h : t.Drawn rules o) {tag : Tag K} {seed closing : Text}
    {first : Segment K} {siblings : List (Segment K)} {parent : Option Nat} {start id next : Nat}
    (hs : o.Sited ⟨.nest tag seed first siblings closing, parent, start, id, next⟩)
    {token : Token K} (hparent : token.parent = some id) : t.Enclosed rules token tag.closes := by
  have hw := Segment.Wraps.nest tag seed first siblings closing
  have hslice := (h.slices_tag hs hw).1
  rw [Tag.closes, ← hslice]
  exact .tag hparent (h.getElem?_eq (.own hs)) (hw.tokenAt _).variant (h.rule_of_tag hs hw)

/-- The token of a site is enclosed by the tag on whose level the site stands. -/
theorem Drawn.enclosed (h : t.Drawn rules o) {site : Site K} {closes : Text → Option Nat}
    (hl : o.LevelOf site closes) :
    t.Enclosed rules (site.own (layout rules t.source)).token closes := by
  cases hl with
  | top hs =>
    apply Enclosed.top
    rw [Site.parent_own, Outline.parent_top hs]
  | part hs hmem =>
    apply h.enclosed_by hs
    rw [Site.parent_own, Site.parent_part hmem]

/-- **A literal is quiet:** no tag opens in it, nor does the tag around it close. -/
theorem Drawn.quiet_literal (h : t.Drawn rules o) {plain : Text} {swallowed : Option Text}
    {parent : Option Nat} {start id next : Nat}
    (hs : o.Sited ⟨.literal plain swallowed, parent, start, id, next⟩) :
    ∃ closes, o.LevelOf ⟨.literal plain swallowed, parent, start, id, next⟩ closes ∧
      Quiet rules closes t.source (spanAt start plain) := by
  obtain ⟨closes, hlevel, before, text, rest, hsource, hstart, hr⟩ := hs.read_on h.read
  refine ⟨closes, hlevel, ?_⟩
  have hplain := literalStop_plain rules closes text
  cases hr with
  | tag _ ht => cases ht
  | @swallows _ closing _ _ hl =>
    rw [hl] at hplain
    have htext := Ruleset.literalStop_swallows hl
    rw [List.append_assoc] at htext
    exact hplain.quiet (by rw [hsource, htext]) hstart
  | literal _ hl =>
    rw [hl] at hplain
    have htext := Ruleset.literalStop_boundary hl
    exact hplain.quiet (by rw [hsource, htext]) hstart

section Nest

variable {tag : Tag K} {seed closing : Text} {first : Segment K} {siblings : List (Segment K)}
  {parent : Option Nat} {start id next : Nat}

/-- The seed of a tag is quiet. -/
theorem Drawn.quiet_seed (h : t.Drawn rules o)
    (hs : o.Sited ⟨.nest tag seed first siblings closing, parent, start, id, next⟩) :
    Quiet rules tag.closes t.source (spanAt (start + Text.bytes tag.opening) seed) := by
  obtain ⟨closes, hread⟩ := hs.read h.read
  obtain ⟨before, mid, after, rest, inner, hn⟩ := hread.nest
  have hplain := contentStop_plain rules tag.closes (seed ++ mid)
  rw [hn.stop] at hplain
  have hsource : t.source = (before ++ tag.opening) ++ (seed ++ mid) := by
    rw [hn.source_eq]
    simp only [List.append_assoc]
  exact hplain.quiet hsource (by rw [Text.bytes_append, hn.start_eq])

end Nest

/-- The content of a tag without tags inside is quiet. -/
theorem Drawn.quiet_content (h : t.Drawn rules o) {tag : Tag K} {content closing : Text}
    {parent : Option Nat} {start id next : Nat}
    (hs : o.Sited ⟨.tag tag content closing, parent, start, id, next⟩) :
    Quiet rules tag.closes t.source (spanAt (start + Text.bytes tag.opening) content) := by
  obtain ⟨closes, before, text, rest, hsource, hstart, hr⟩ := hs.read h.read
  cases hr with
  | @tag opening _ _ _ ht =>
    cases ht with
    | plain hstop =>
      have hplain := contentStop_plain rules (opening.tag text).closes (Text.drop opening.length text)
      have htext := Opening.text_of_closed hstop
      unfold Opening.stop at hstop
      rw [hstop] at hplain
      have hsource' : t.source =
          (before ++ (opening.tag text).opening) ++ (content ++ (closing ++ rest)) := by
        rw [hsource]
        conv => lhs; rw [← htext]
        simp only [List.append_assoc]
      exact hplain.quiet hsource' (by rw [Text.bytes_append, hstart])

end TokenTree

/-! ## Scans -/

section

variable [DecidableEq K] [Taxonomy K] {limits : Limits} {source : Text} {t : TokenTree K}

/-- **Every token of a scanned tree is what the rules say of its place.** A tag is opened
and closed by its rule, and if it holds no tags its content is plain text. A literal is
plain text on the level of the tag that encloses it. -/
theorem scan_lexes (h : TokenTree.scan rules limits source = .ok t) {token : Token K}
    (hmem : token ∈ t.tokens) :
    t.source = source ∧
    (∀ index, token.variant = .tag index → ∃ o start pos n, t.Lexed rules token o start pos n ∧
      (token.level = none → ∃ content, token.content = some content ∧
        Quiet rules (o.rule.closes (t.slice token.opening)) source content)) ∧
    (∀ swallowed, token.variant = .literal swallowed → ∃ closes span,
      t.Enclosed rules token closes ∧ token.span = some span ∧ Quiet rules closes source span) := by
  obtain ⟨hsource, o, hd⟩ := TokenTree.scan_drawn h
  subst hsource
  refine ⟨rfl, ?_⟩
  obtain ⟨i, hi⟩ := Array.getElem?_of_mem hmem
  obtain ⟨course, hcourse, rfl⟩ := hd.token_stands hi
  cases hcourse with
  | @seed tag seed closing first siblings parent start id next hs =>
    refine ⟨fun _ hv => (nomatch hv), fun _ _ => ?_⟩
    exact ⟨_, _, hd.enclosed_by hs rfl, rfl, hd.quiet_seed hs⟩
  | @group tag seed closing first siblings parent start id next hs =>
    have hab := Site.abut_nest tag seed closing first siblings parent start id next
    rw [Course.token_group _ _ hab]
    exact ⟨fun _ hv => (nomatch hv), fun _ hv => (nomatch hv)⟩
  | root ho =>
    rw [Course.token_group _ none o.abut_sites]
    exact ⟨fun _ hv => (nomatch hv), fun _ hv => (nomatch hv)⟩
  | @own site hs =>
    obtain ⟨segment, parent, start, id, next⟩ := site
    cases segment with
    | literal plain swallowed =>
      refine ⟨fun _ hv => (nomatch hv), fun _ _ => ?_⟩
      obtain ⟨closes, hlevel, hquiet⟩ := hd.quiet_literal hs
      exact ⟨closes, _, hd.enclosed hlevel, rfl, hquiet⟩
    | tag tag content closing =>
      refine ⟨fun _ _ => ?_, fun _ hv => (nomatch hv)⟩
      obtain ⟨opening, pos, n, hlexed, hcloses⟩ := hd.lexed hs (.tag tag content closing)
      refine ⟨opening, start, pos, n, hlexed, fun _ => ⟨_, rfl, ?_⟩⟩
      rw [hcloses]
      exact hd.quiet_content hs
    | nest tag seed first siblings closing =>
      refine ⟨fun _ _ => ?_, fun _ hv => (nomatch hv)⟩
      obtain ⟨opening, pos, n, hlexed, -⟩ :=
        hd.lexed hs (.nest tag seed first siblings closing)
      -- a tag with tags inside has delegated its content
      exact ⟨opening, start, pos, n, hlexed, fun hlevel => (nomatch hlevel)⟩

end

theorem scan_lexes_sample : ∃ t token o start pos n,
    TokenTree.scan Template.rules .default Template.sample = .ok t ∧ token ∈ t.tokens ∧
      token.variant = .tag 0 ∧ t.Lexed Template.rules token o start pos n := by
  obtain ⟨t, ht, hp⟩ : ∃ t, TokenTree.scan Template.rules .default Template.sample = .ok t ∧
      (t.tokens[2]?).any (fun token => token.variant = .tag 0) = true :=
    TokenTree.exists_ok_of_any (by cbv)
  obtain ⟨token, hi, hv⟩ := (Option.any_eq_true _ _).1 hp
  have hmem : token ∈ t.tokens := Array.mem_of_getElem? hi
  have hv : token.variant = .tag 0 := of_decide_eq_true hv
  obtain ⟨o, start, pos, n, hlexed, -⟩ := (scan_lexes ht hmem).2.1 0 hv
  exact ⟨t, token, o, start, pos, n, ht, hmem, hv, hlexed⟩

end Bracketry
