import Bracketry.Proofs.Branches
import Bracketry.Proofs.Partition
import Bracketry.Proofs.Unambiguous

/-!
# Where a tag could have closed

Inside a tag the scan looks for its close delimiter at every place where plain text may
go on: in the tag's own content, in a literal on its level, and where a literal stops. It
does not look where a tag on the level has just ended, because a level asks first which
tag opens. So a child never stands where the tag closes, unless it is a tag right behind
another one.

* `LevelRead.prior_row`: what is known of the places of the segments of a level.
* `ReadAt.prior_parts`: the same of all parts of a tag.
* `scan_closes_first`: **in a scanned tree the close delimiter of a tag stands at none of
  its children,** except at a tag behind another tag, and at none at all if the rules are
  unambiguous.
* `Template.scan_nests_at_close`: the exception is real.
-/

namespace Bracketry

variable {K : Type} {rules : Ruleset K} {closes : Text → Option Nat}

/-! ## Where plain text goes on -/

/-- Where the enclosing tag closes, a literal is empty and swallows the delimiter. -/
theorem literalStop_of_closes {text : Text} {n : Nat} (h : closes text = some n) :
    rules.literalStop closes text = .swallows [] (Text.take n text) (Text.drop n text) := by
  unfold Ruleset.literalStop
  rw [h]

/-- A literal that swallows nothing does not stand where the enclosing tag closes. -/
theorem closes_of_boundary {text plain rest : Text}
    (h : rules.literalStop closes text = .boundary plain rest) : closes text = none := by
  cases hc : closes text with
  | none => rfl
  | some n =>
    rw [literalStop_of_closes hc] at h
    cases h

/-- Where a tag opens in the content of another, that one does not close, nor where the
content begins. -/
theorem opens_stop {text seed mid : Text} {inner : Opening K}
    (h : rules.contentStop closes text = .opens seed inner mid) :
    closes text = none ∧ closes mid = none := by
  have hboundary : rules.literalStop closes text = .boundary seed mid := by rw [literalStop_eq, h]
  exact ⟨closes_of_boundary hboundary, (boundary_stop hboundary).1⟩

/-- A literal that is not empty does not stand where the enclosing tag closes. -/
theorem SegmentRead.closes_of_literal {text rest : Text} {s : Segment K}
    (h : SegmentRead rules closes text s rest) (hs : s.isLiteral = true)
    (he : s.isEmptyLiteral = false) : closes text = none := by
  cases h with
  | literal _ hl => exact closes_of_boundary hl
  | tag _ ht =>
    rw [ht.isLiteral_eq] at hs
    cases hs
  | swallows _ hl =>
    cases hc : closes text with
    | none => rfl
    | some n =>
      rw [literalStop_of_closes hc] at hl
      cases hl
      cases he

/-- Behind a literal that swallows nothing the enclosing tag does not close. -/
theorem SegmentRead.closes_after {text rest : Text} {s : Segment K}
    (h : SegmentRead rules closes text s rest) (hs : s.swallowed = none) :
    closes rest = none ∨ s.isLiteral = false := by
  cases h with
  | swallows _ _ => cases hs
  | literal _ hl => exact .inl (boundary_stop hl).1
  | tag _ ht => exact .inr ht.isLiteral_eq

/-! ## The children of a tag -/

/-- The enclosing tag does not close where a site starts, or the site is a tag that
starts where another tag stops. -/
def Site.Prior (source : Text) (closes : Text → Option Nat) (sites : List (Site K))
    (site : Site K) : Prop :=
  closes (Text.drop site.start source) = none ∨
    (site.segment.isLiteral = false ∧ ∃ p ∈ sites, p.segment.isLiteral = false ∧
      p.start + p.segment.bytes = site.start)

variable {source : Text} {sites : List (Site K)}

/-- **The segments of a level do not stand where the enclosing tag closes,** except tags
behind tags. -/
theorem LevelRead.prior_row {segments : List (Segment K)} {before text rest : Text}
    {closing : Option Text} (h : LevelRead rules closes text segments closing rest)
    (hsource : source = before ++ text) (parent : Option Nat) (next : Nat)
    (hsites : ∀ site ∈ Site.row parent (Text.bytes before) next segments, site ∈ sites)
    (hprior : closes text = none ∨ ∃ p ∈ sites, p.segment.isLiteral = false ∧
      p.start + p.segment.bytes = Text.bytes before) :
    ∀ site ∈ Site.row parent (Text.bytes before) next segments,
      site.segment.isEmptyLiteral = false → site.Prior source closes sites := by
  induction segments generalizing before text next with
  | nil =>
    intro site hs
    cases hs
  | cons s segments ih =>
    obtain ⟨mid, hs, htail⟩ := h.head_tail
    obtain ⟨hmem, hrow⟩ := List.forall_mem_cons.1 hsites
    have htext : Text.drop (Text.bytes before) source = text := by
      rw [hsource, Text.drop_bytes_append]
    refine List.forall_mem_cons.2 ⟨?_, ?_⟩
    · intro he
      cases hl : s.isLiteral with
      | true =>
        left
        rw [htext]
        exact hs.closes_of_literal hl he
      | false =>
        rcases hprior with hnone | hbehind
        · left
          rw [htext]
          exact hnone
        · exact .inr ⟨hl, hbehind⟩
    · rcases htail with rfl | ⟨hswallowed, hcover, hrest⟩
      · intro site hsite
        cases hsite
      · -- what is before the segment moves to what is before the others
        have hbefore : source = (before ++ s.text) ++ mid := by
          rw [hsource, ← hcover, List.append_assoc]
        have hbytes : Text.bytes (before ++ s.text) = Text.bytes before + s.bytes := by
          rw [Text.bytes_append, Segment.bytes_text]
        rw [← hbytes] at hrow ⊢
        refine ih hrest hbefore (next + s.count) hrow ?_
        rcases hs.closes_after hswallowed with hnone | htag
        · exact .inl hnone
        · exact .inr ⟨_, hmem, htag, hbytes.symm⟩

section Nest

variable {tag : Tag K} {seed closing : Text} {first : Segment K} {siblings : List (Segment K)}
  {parent : Option Nat} {start id next : Nat}

/-- A tag with tags inside does not close where its content begins. -/
theorem ReadAt.prior_seed
    (h : ReadAt rules source closes start (.nest tag seed first siblings closing)) :
    tag.closes (Text.drop (start + Text.bytes tag.opening) source) = none := by
  obtain ⟨before, mid, after, rest, inner, hn⟩ := h.nest
  have hbody : Text.bytes (before ++ tag.opening) = start + Text.bytes tag.opening := by
    rw [Text.bytes_append, hn.start_eq]
  rw [← hbody, hn.source_eq, List.append_assoc, Text.drop_bytes_append]
  exact (opens_stop hn.stop).1

/-- **The parts of a tag do not stand where it closes,** except tags behind tags. -/
theorem ReadAt.prior_parts
    (h : ReadAt rules source closes start (.nest tag seed first siblings closing))
    (parent : Option Nat) (id next : Nat) :
    ∀ site ∈ Site.parts ⟨.nest tag seed first siblings closing, parent, start, id, next⟩,
      site.segment.isEmptyLiteral = false → site.Prior source tag.closes
        (Site.parts ⟨.nest tag seed first siblings closing, parent, start, id, next⟩) := by
  obtain ⟨before, mid, after, rest, inner, hn⟩ := h.nest
  have hplace : Text.bytes (before ++ tag.opening ++ seed) =
      start + Text.bytes tag.opening + Text.bytes seed := by
    rw [Text.bytes_append, Text.bytes_append, hn.start_eq]
  have hafter : Text.bytes (before ++ tag.opening ++ seed ++ first.text) =
      start + Text.bytes tag.opening + Text.bytes seed + first.bytes := by
    rw [Text.bytes_append, hplace, Segment.bytes_text]
  have hbefore : source = (before ++ tag.opening ++ seed ++ first.text) ++ after := by
    rw [hn.source_eq, ← hn.first.text_eq]
    simp only [List.append_assoc]
  refine List.forall_mem_cons.2 ⟨fun _ => .inl ?_, ?_⟩
  · dsimp only
    rw [← hplace, hn.source_eq, Text.drop_bytes_append]
    exact (opens_stop hn.stop).2
  · rw [← hafter]
    refine hn.siblings.prior_row hbefore (some id) (next + 2 + first.count) ?_ ?_
    · intro site hsite
      rw [hafter] at hsite
      exact List.mem_cons_of_mem _ hsite
    · -- the first part is a tag, and the level goes on where it stops
      exact .inr ⟨_, List.mem_cons_self, hn.first.isLiteral_eq, hafter.symm⟩

end Nest

/-- A site that is a tag stands where one opens. -/
theorem Outline.Sited.opening {o : Outline K} (h : OutlineRead rules source o) {site : Site K}
    (hs : o.Sited site) (hl : site.segment.isLiteral = false) :
    ∃ opening, rules.opening? (Text.drop site.start source) = some opening := by
  obtain ⟨closes, before, text, rest, hsource, hstart, hr⟩ := hs.read h
  have htext : Text.drop site.start source = text := by
    rw [hsource, ← hstart, Text.drop_bytes_append]
  rw [htext]
  generalize site.segment = s at hl hr
  cases hr with
  | swallows _ _ => cases hl
  | literal _ _ => cases hl
  | tag ho _ => exact ⟨_, ho⟩

/-! ## The children of a token -/

namespace TokenTree

variable {t : TokenTree K} {o : Outline K}

/-- A token is a tag, and it starts where another tag among some tokens stops. -/
def Behind (t : TokenTree K) (siblings : List Nat) (token : Token K) : Prop :=
  (∃ rule, token.variant = .tag rule) ∧ ∃ i ∈ siblings, ∃ before, t.tokens[i]? = some before ∧
    (∃ rule, before.variant = .tag rule) ∧ before.span.map Span.stop = token.span.map Span.start

theorem variant_own (l : Layout K) {site : Site K} (h : site.segment.isLiteral = false) :
    ∃ rule, (site.own l).token.variant = .tag rule := by
  obtain ⟨segment, parent, start, id, next⟩ := site
  cases segment with
  | literal plain swallowed => cases h
  | tag tag content closing => exact ⟨_, rfl⟩
  | nest tag seed first siblings closing => exact ⟨_, rfl⟩

section Nest

variable {tag : Tag K} {seed closing : Text} {first : Segment K} {siblings : List (Segment K)}
  {parent : Option Nat} {start id next : Nat}

/-- A part of a tag that is kept does not stand where the tag closes, unless it is a tag
behind another one. -/
theorem Drawn.prior_part (h : t.Drawn rules o)
    (hs : o.Sited ⟨.nest tag seed first siblings closing, parent, start, id, next⟩) {site : Site K}
    (hsite : site ∈ Site.parts ⟨.nest tag seed first siblings closing, parent, start, id, next⟩)
    (he : site.segment.isEmptyLiteral = false) :
    tag.closes (Text.drop site.start t.source) = none ∨
      ((∃ opening, rules.opening? (Text.drop site.start t.source) = some opening) ∧
        t.Behind (NodeTree.project t id) (site.own (layout rules t.source)).token) := by
  obtain ⟨closes, hread⟩ := hs.read h.read
  rcases hread.prior_parts parent id next site hsite he with hnone | ⟨hl, p, hp, hpl, hstop⟩
  · exact .inl hnone
  · have hkept : p.child ∈ ((Site.parts ⟨.nest tag seed first siblings closing, parent, start, id,
        next⟩).map Site.child).filter fun c => !c.emptyLiteral :=
      List.mem_filter.2 ⟨List.mem_map_of_mem hp,
        by simp [Site.child, Segment.isEmptyLiteral_of_not_literal hpl]⟩
    -- whether the seed is kept or not, a tag is
    have hchild : p.id ∈ NodeTree.project t id := by
      rw [h.project_nest hs, kept, List.filter_cons, List.mem_map]
      refine ⟨p.child, ?_, rfl⟩
      split
      · exact List.mem_cons_of_mem _ hkept
      · exact hkept
    refine .inr ⟨(hs.part hsite).opening h.read hl, variant_own _ hl, p.id, hchild, _,
      h.getElem?_eq (.own (hs.part hp)), variant_own _ hpl, ?_⟩
    rw [(h.text_own (hs.part hp)).2, (h.text_own (hs.part hsite)).2, Option.map_some,
      Option.map_some, hstop]

/-- **A child of a tag does not stand where the tag closes,** unless it is a tag behind
another one. -/
theorem Drawn.prior_child (h : t.Drawn rules o)
    (hs : o.Sited ⟨.nest tag seed first siblings closing, parent, start, id, next⟩) {c : Nat}
    (hc : c ∈ NodeTree.project t id) :
    ∃ child span, t.tokens[c]? = some child ∧ child.span = some span ∧
      (tag.closes (Text.drop span.start t.source) = none ∨
        ((∃ opening, rules.opening? (Text.drop span.start t.source) = some opening) ∧
          t.Behind (NodeTree.project t id) child)) := by
  rw [h.project_nest hs] at hc
  obtain ⟨child, hchild, rfl⟩ := List.mem_map.1 hc
  obtain ⟨hmem, hkeep⟩ := List.mem_filter.1 hchild
  rcases List.mem_cons.1 hmem with rfl | hmem
  · obtain ⟨closes, hread⟩ := hs.read h.read
    exact ⟨_, _, h.getElem?_eq (.seed hs), rfl, .inl hread.prior_seed⟩
  · obtain ⟨site, hsite, rfl⟩ := List.mem_map.1 hmem
    have hsited := hs.part hsite
    have he : site.segment.isEmptyLiteral = false := by simpa [Site.child] using hkeep
    exact ⟨_, _, h.getElem?_eq (.own hsited), (h.text_own hsited).2, h.prior_part hs hsite he⟩

end Nest

end TokenTree

section

variable [DecidableEq K] [Taxonomy K] {limits : Limits} {t : TokenTree K}

/-- **The close delimiter of a tag stands at none of its children.** The exception is a
tag right behind another one, where the delimiter may stand. If the rules are unambiguous,
there is no exception. -/
theorem scan_closes_first (h : TokenTree.scan rules limits source = .ok t) {i index : Nat}
    {token : Token K} {rule : Rule K} (hi : t.tokens[i]? = some token)
    (hv : token.variant = .tag index) (hrule : rules.rules[index]? = some rule) {c : Nat}
    (hc : c ∈ NodeTree.project t i) :
    ∃ child span, t.tokens[c]? = some child ∧ child.span = some span ∧
      (rule.closes (t.slice token.opening) (Text.drop span.start source) = none ∨
        t.Behind (NodeTree.project t i) child) ∧
      (rules.Unambiguous →
        rule.closes (t.slice token.opening) (Text.drop span.start source) = none) := by
  obtain ⟨hsource, o, hd⟩ := TokenTree.scan_drawn h
  obtain ⟨course, hcourse, rfl⟩ := hd.token_stands hi
  cases hcourse with
  | seed _ => cases hv
  | @group tag seed closing first siblings parent start id next _ =>
    have hab := Site.abut_nest tag seed closing first siblings parent start id next
    rw [Course.token_group _ _ hab] at hv
    cases hv
  | root _ =>
    rw [Course.token_group _ _ o.abut_sites] at hv
    cases hv
  | @own site hs =>
    obtain ⟨segment, parent, start, id, next⟩ := site
    cases segment with
    | literal plain swallowed => cases hv
    | tag tag content closing =>
      -- a tag without tags inside has no children
      simp only [NodeTree.project, hi] at hc
      cases hc
    | nest tag seed first siblings closing =>
      obtain rfl : tag.index = index := Variant.tag.inj hv
      have hw := Segment.Wraps.nest tag seed first siblings closing
      obtain rfl : tag.rule = rule := Option.some.inj ((hd.rule_of_tag hs hw).symm.trans hrule)
      obtain ⟨child, span, hchild, hspan, hprior⟩ := hd.prior_child hs hc
      rw [hsource] at hprior
      have hslice := (hd.slices_tag hs hw).1
      refine ⟨child, span, hchild, hspan, ?_, fun hu => ?_⟩
      · rw [hslice]
        exact hprior.imp_right And.right
      · rw [hslice]
        rcases hprior with hnone | ⟨⟨opening, hopening⟩, -⟩
        · exact hnone
        · exact hu.closes_eq_none (List.mem_of_getElem? hrule) _ hopening

end

namespace Template

/-- Tags that open and close with a bar, and tags in angle brackets. -/
def bars : Ruleset Kind := .ofPairs .text .document [⟨.var, ['|'], ['|']⟩, ⟨.filter, ['<'], ['>']⟩]

/-- A bar, a tag in angle brackets, and three more bars. -/
def barred : Text := ['|', '<', 'b', '>', '|', 'c', '|', 'd', '|']

theorem scan_barred : ∃ t, TokenTree.scan bars .default barred = .ok t ∧
    ((t.tokens[t.root]?).any (fun token => token.variant == .tag 0 && token.span == some ⟨0, 9⟩ &&
        t.slice token.opening == ['|']) &&
      (NodeTree.project t t.root).any fun c => (t.tokens[c]?).any fun child =>
        child.span == some ⟨4, 7⟩) = true :=
  TokenTree.exists_ok_of_any (by cbv)

theorem scan_closes_first_barred : ∃ t token rule c, TokenTree.scan bars .default barred = .ok t ∧
    t.tokens[t.root]? = some token ∧ token.variant = .tag 0 ∧ bars.rules[0]? = some rule ∧
      c ∈ NodeTree.project t t.root ∧
      ∃ child span, t.tokens[c]? = some child ∧ child.span = some span ∧
        (rule.closes (t.slice token.opening) (Text.drop span.start barred) = none ∨
          t.Behind (NodeTree.project t t.root) child) ∧
        (bars.Unambiguous →
          rule.closes (t.slice token.opening) (Text.drop span.start barred) = none) := by
  obtain ⟨t, ht, htest⟩ := scan_barred
  obtain ⟨hroot, hchild⟩ := Bool.and_eq_true_iff.1 htest
  obtain ⟨token, htoken, htest⟩ := (Option.any_eq_true _ _).1 hroot
  obtain ⟨c, hc, -⟩ := List.any_eq_true.1 hchild
  simp only [Bool.and_eq_true, beq_iff_eq] at htest
  have hvariant : token.variant = .tag 0 := htest.1.1
  exact ⟨t, token, _, c, ht, htoken, hvariant, rfl, hc, scan_closes_first ht htoken hvariant rfl hc⟩

/-- A tag may stay open where its close delimiter stands: behind the tag in angle brackets
a bar opens another tag, where it could have closed the one around it. -/
theorem scan_nests_at_close : ∃ t token rule c child,
    TokenTree.scan bars .default barred = .ok t ∧ t.tokens[t.root]? = some token ∧
      token.variant = .tag 0 ∧ token.span = some ⟨0, 9⟩ ∧ bars.rules[0]? = some rule ∧
      c ∈ NodeTree.project t t.root ∧ t.tokens[c]? = some child ∧ child.span = some ⟨4, 7⟩ ∧
      rule.closes (t.slice token.opening) (Text.drop 4 barred) = some 1 := by
  obtain ⟨t, ht, htest⟩ := scan_barred
  obtain ⟨hroot, hchild⟩ := Bool.and_eq_true_iff.1 htest
  obtain ⟨token, htoken, htest⟩ := (Option.any_eq_true _ _).1 hroot
  obtain ⟨c, hc, hany⟩ := List.any_eq_true.1 hchild
  obtain ⟨child, hchild, hspan⟩ := (Option.any_eq_true _ _).1 hany
  simp only [Bool.and_eq_true, beq_iff_eq] at htest hspan
  obtain ⟨⟨hvariant, htokenspan⟩, hopening⟩ := htest
  refine ⟨t, token, _, c, child, ht, htoken, hvariant, htokenspan, rfl, hc, hchild, hspan, ?_⟩
  rw [hopening]
  decide

end Template

end Bracketry
