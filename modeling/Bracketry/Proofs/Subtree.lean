import Bracketry.Proofs.Locality

/-!
# The tree of a tag alone

The text of a tag, scanned alone, gives the part of the tree that stands below the tag. The
numbers of the tokens change, and the positions move to the start of the text. Kinds, rules,
texts, extra fields and the order of the children stay.

* `Branch.Moved`: a branch with all its positions moved on.
* `Branch.Grows.moved`: branches are moved if nodes and their children are, step by step.
* `Site.Twin`, `Node.Twin.children`: the same segment at two places has the same children.
* `scan_local`: **parsing is local to a tag** over tags between fixed texts.
-/

namespace Bracketry

variable {K : Type}

/-! ## Moving on -/

/-- A span moved on by some bytes. -/
def Span.moved (δ : Nat) (s : Span) : Span := ⟨s.start + δ, s.stop + δ⟩

/-- A variant with its position moved on by some bytes. -/
def Variant.moved (δ : Nat) : Variant → Variant
  | .tag rule => .tag rule
  | .literal swallowed => .literal (swallowed.map (Span.moved δ))
  | .group children => .group children

/-- The second of two tokens is the first moved on by some bytes. -/
structure Token.Moved (δ : Nat) (p q : Token K) : Prop where
  kind : q.kind = p.kind
  variant : q.variant = p.variant.moved δ
  opening : q.opening = p.opening.map (Span.moved δ)
  content : q.content = p.content.map (Span.moved δ)
  closing : q.closing = p.closing.map (Span.moved δ)
  state : q.state = p.state
  extra : q.extra = p.extra

/-- The second of two nodes, perhaps of another tree, is the first moved on by some bytes, and
it has the same texts. -/
structure Node.Moved (δ : Nat) (m n : Node K) : Prop where
  token : m.token.Moved δ n.token
  text : n.text = m.text
  opening : n.tree.tokens.slice n.token.opening = m.tree.tokens.slice m.token.opening
  content : n.content = m.content
  closing : n.tree.tokens.slice n.token.closing = m.tree.tokens.slice m.token.closing

/-- **The second of two branches is the first moved on by some bytes.** It has the same
branches in the same order, all of them moved on. -/
inductive Branch.Moved (δ : Nat) : Branch K → Branch K → Prop
  | node {m n : Node K} {branches branches' : List (Branch K)} :
      m.Moved δ n → List.Forall₂ (Branch.Moved δ) branches branches' →
      Branch.Moved δ (.node m branches) (.node n branches')

theorem Variant.eq_tag_of_moved {δ rule : Nat} {v : Variant} (h : v.moved δ = .tag rule) :
    v = .tag rule := by
  cases v with
  | tag _ => exact h
  | literal _ => cases h
  | group _ => cases h

theorem Branch.Moved.head {δ : Nat} {b c : Branch K} (h : b.Moved δ c) : b.head.Moved δ c.head := by
  cases h with
  | node hmoved _ => exact hmoved

theorem Segment.spanAt_moved (δ start : Nat) (text : Text) :
    (spanAt start text).moved δ = spanAt (start + δ) text := by
  unfold spanAt Span.moved
  rw [Nat.add_right_comm]

/-- What covers a text of a part of a source covers it in the source, moved on to where the
part starts. -/
theorem Span.Covers.moved {part text : Text} {span : Span} (h : span.Covers part text)
    (before after : Text) : (span.moved (Text.bytes before)).Covers (before ++ part ++ after) text := by
  obtain ⟨b, a, rfl, rfl⟩ := h
  refine ⟨before ++ b, a ++ after, by simp, ?_⟩
  rw [Segment.spanAt_moved, Text.bytes_append, Nat.add_comm]

/-- Branches are moved if the nodes at their heads are related, where related nodes are moved
and have related children. -/
theorem Branch.Grows.moved {R : Node K → Node K → Prop} {δ : Nat}
    (hmoved : ∀ m n, R m n → m.Moved δ n)
    (hchildren : ∀ m n, R m n → List.Forall₂ R m.children.value n.children.value)
    {b c : Branch K} (hb : b.Grows) (hc : c.Grows) (h : R b.head c.head) : b.Moved δ c := by
  induction hb generalizing c with
  | @node head branches hheads _ ih =>
    cases hc with
    | @node head' branches' hheads' hgrow' =>
      have hrow := hchildren head head' h
      rw [← hheads, ← hheads', List.forall₂_map_left_iff, List.forall₂_map_right_iff] at hrow
      refine .node (hmoved head head' h) ?_
      refine List.forall₂_iff_zip.2 ⟨hrow.length_eq, fun {b c} hzip => ?_⟩
      obtain ⟨hb, hc⟩ := List.of_mem_zip hzip
      exact ih b hb (hgrow' c hc) (List.forall₂_zip hrow hzip)

/-! ## The same segment at two places -/

open TokenTree (layout Drawn)

open Segment (spanAt)

/-- The token of a tag is moved with the tag. -/
theorem Tag.TokenAt.moved {tag : Tag K} {inside ending : Text} {start δ : Nat} {p q : Token K}
    (h : tag.TokenAt inside ending start p) (h' : tag.TokenAt inside ending (start + δ) q)
    (hstate : q.state = p.state) : p.Moved δ q := by
  refine ⟨h'.kind.trans h.kind.symm, ?_, ?_, ?_, ?_, hstate, h'.extra.trans h.extra.symm⟩
  · rw [h'.variant, h.variant]
    rfl
  · rw [h'.opening, h.opening, Option.map_some, Segment.spanAt_moved]
  · rw [h'.content, h.content, Option.map_some, Segment.spanAt_moved, Nat.add_right_comm start]
  · rw [h'.closing, h.closing, Option.map_some, Segment.spanAt_moved, Nat.add_right_comm start,
      Nat.add_right_comm (start + Text.bytes tag.opening)]

/-- Two sites of the same segment, perhaps in outlines of different sources; the second starts
some bytes further on. -/
structure Site.Twin (o o' : Outline K) (δ : Nat) (a b : Site K) : Prop where
  segment : a.segment = b.segment
  start : b.start = a.start + δ
  sited : o.Sited a
  sited' : o'.Sited b

/-- The token of a segment is moved with the segment. -/
theorem Site.own_moved {l l' : Layout K} {δ : Nat} (hkind : l'.literalKind = l.literalKind)
    {a b : Site K} (hsegment : a.segment = b.segment) (hstart : b.start = a.start + δ) :
    (a.own l).token.Moved δ (b.own l').token := by
  have hwraps : ∀ {tag : Tag K} {inside ending : Text}, a.segment.Wraps tag inside ending →
      (b.own l').token.state = (a.own l).token.state → (a.own l).token.Moved δ (b.own l').token := by
    intro tag inside ending hw hstate
    have ha := hw.tokenAt l
    rw [hsegment] at hw
    have hb := hw.tokenAt l'
    rw [hstart] at hb
    exact ha.moved hb hstate
  obtain ⟨segment, parent, start, id, next⟩ := a
  obtain ⟨_, parent', _, id', next'⟩ := b
  dsimp only at hsegment hstart
  subst hsegment hstart
  cases segment with
  | literal plain swallowed =>
    have hspan : ∀ n m : Nat,
        (⟨start + δ + n, start + δ + m⟩ : Span) = Span.moved δ ⟨start + n, start + m⟩ := by
      intro n m
      unfold Span.moved
      rw [Nat.add_right_comm start n, Nat.add_right_comm start m]
    refine ⟨hkind, ?_, congrArg some (hspan 0 0), congrArg some (hspan 0 _),
      congrArg some (hspan _ _), rfl, rfl⟩
    cases swallowed with
    | none => rfl
    | some closing =>
      refine congrArg (Variant.literal ∘ some) ?_
      rw [Segment.spanAt_moved, Nat.add_right_comm]
  | tag tag content closing => exact hwraps (.tag tag content closing) rfl
  | nest tag seed first siblings closing => exact hwraps (.nest tag seed first siblings closing) rfl

/-- Sites of the same segments in a row are twins if the first of them are. -/
theorem Site.twins_row {o o' : Outline K} {δ : Nat} {parent parent' : Option Nat}
    {start start' next next' : Nat} {segments : List (Segment K)} (hstart : start' = start + δ)
    (hs : ∀ site ∈ row parent start next segments, o.Sited site)
    (hs' : ∀ site ∈ row parent' start' next' segments, o'.Sited site) :
    List.Forall₂ (Twin o o' δ) (row parent start next segments)
      (row parent' start' next' segments) := by
  induction segments generalizing start start' next next' with
  | nil => exact .nil
  | cons s rest ih =>
    obtain ⟨hfirst, hrest⟩ := List.forall_mem_cons.1 hs
    obtain ⟨hfirst', hrest'⟩ := List.forall_mem_cons.1 hs'
    refine .cons ⟨rfl, hstart, hfirst, hfirst'⟩ (ih ?_ hrest hrest')
    rw [hstart, Nat.add_right_comm]

/-- The parts of twins are twins. -/
theorem Site.Twin.parts {o o' : Outline K} {δ : Nat} {a b : Site K} (h : Twin o o' δ a b) :
    List.Forall₂ (Twin o o' δ) a.parts b.parts := by
  have hs : ∀ site ∈ a.parts, o.Sited site := fun _ => .part h.sited
  have hs' : ∀ site ∈ b.parts, o'.Sited site := fun _ => .part h.sited'
  obtain ⟨hsegment, hstart, -, -⟩ := h
  obtain ⟨segment, parent, start, id, next⟩ := a
  obtain ⟨_, parent', start', id', next'⟩ := b
  dsimp only at hsegment hstart
  subst hsegment hstart
  cases segment with
  | literal plain swallowed => exact .nil
  | tag tag content closing => exact .nil
  | nest tag seed first siblings closing =>
    obtain ⟨hfirst, hrest⟩ := List.forall_mem_cons.1 hs
    obtain ⟨hfirst', hrest'⟩ := List.forall_mem_cons.1 hs'
    refine .cons ⟨rfl, ?_, hfirst, hfirst'⟩ (twins_row ?_ hrest hrest')
    · simp only [Nat.add_right_comm _ δ]
    · simp only [Nat.add_right_comm _ δ]

/-! ## The same node in two trees -/

variable {t t' : NodeTree K} {rules : Ruleset K} {o o' : Outline K} {δ : Nat}

/-- Two nodes that stand for the same segment at two places, or for the seed of the same tag. -/
inductive Node.Twin (rules : Ruleset K) (t t' : NodeTree K) (o o' : Outline K) (δ : Nat) :
    Node K → Node K → Prop
  | site {a b : Site K} : Site.Twin o o' δ a b →
      Twin rules t t' o o' δ (a.node t (layout rules t.tokens.source))
        (b.node t' (layout rules t'.tokens.source))
  | seed {tag : Tag K} {seed closing : Text} {first : Segment K} {siblings : List (Segment K)}
      {parent parent' : Option Nat} {start start' id id' next next' : Nat} :
      Site.Twin o o' δ ⟨.nest tag seed first siblings closing, parent, start, id, next⟩
        ⟨.nest tag seed first siblings closing, parent', start', id', next'⟩ →
      Twin rules t t' o o' δ
        (Site.seedNode t (layout rules t.tokens.source) id (start + Text.bytes tag.opening) next seed)
        (Site.seedNode t' (layout rules t'.tokens.source) id' (start' + Text.bytes tag.opening) next'
          seed)

/-- What a group keeps of twins are twins. -/
theorem Site.twins_nodes {sites sites' : List (Site K)}
    (h : List.Forall₂ (Twin o o' δ) sites sites') :
    List.Forall₂ (Node.Twin rules t t' o o' δ)
      (nodes t (layout rules t.tokens.source) sites)
      (nodes t' (layout rules t'.tokens.source) sites') := by
  induction h with
  | nil => exact .nil
  | @cons a b rest rest' hab _ ih =>
    unfold nodes at ih ⊢
    have hsegment := hab.segment
    cases he : a.segment.isEmptyLiteral with
    | true =>
      rw [List.filter_cons_of_neg (by simp [he]), List.filter_cons_of_neg (by simp [← hsegment, he])]
      exact ih
    | false =>
      rw [List.filter_cons_of_pos (by simp [he]), List.filter_cons_of_pos (by simp [← hsegment, he])]
      exact .cons (.site hab) ih

/-- The token of a twin is moved. -/
theorem Node.Twin.token {m n : Node K}
    (htwin : Node.Twin rules t t' o o' δ m n) : m.token.Moved δ n.token := by
  cases htwin with
  | @site a b hab =>
    have hkind : (layout rules t'.tokens.source).literalKind =
        (layout rules t.tokens.source).literalKind := rfl
    exact Site.own_moved hkind hab.segment hab.start
  | @seed tag seed closing first siblings parent parent' start start' id id' next next' hab =>
    have hstart := hab.start
    dsimp only at hstart
    subst hstart
    have hbody : start + δ + Text.bytes tag.opening = start + Text.bytes tag.opening + δ :=
      Nat.add_right_comm _ _ _
    refine ⟨rfl, rfl, ?_, ?_, ?_, rfl, rfl⟩
    · simp only [Site.seedNode, hbody]
      rfl
    · simp only [Site.seedNode, hbody, ← Segment.spanAt_moved]
      rfl
    · simp only [Site.seedNode, hbody, ← Segment.spanAt_moved]
      rfl

/-- A moved token has the same texts where its source is a part of the other. -/
theorem Token.Moved.node {before after : Text} {p q : Token K} {i j : Nat}
    (h : p.Moved δ q) (hd : t.tokens.Drawn rules o) (hi : t.tokens.tokens[i]? = some p)
    (hsource : t'.tokens.source = before ++ t.tokens.source ++ after)
    (hδ : Text.bytes before = δ) : Node.Moved δ (⟨t, i, p⟩ : Node K) ⟨t', j, q⟩ := by
  obtain ⟨start, x, y, z, hcut⟩ := hd.cut hi
  have hslice : ∀ {span : Span} {text : Text}, span.Covers t.tokens.source text →
      t'.tokens.slice (some (span.moved δ)) = t.tokens.slice (some span) := by
    intro span text hcovers
    have hmoved := hcovers.moved before after
    rw [hδ, ← hsource] at hmoved
    exact hmoved.slice_eq.trans hcovers.slice_eq.symm
  have hcovers := hcut.covers
  rw [List.append_assoc] at hcovers
  obtain ⟨hx, hyz⟩ := Span.Covers.split start hcovers
  obtain ⟨hy, hz⟩ := Span.Covers.split _ hyz
  have hspan : q.span = some ((spanAt start (x ++ y ++ z)).moved δ) := by
    rw [Token.span, h.opening, h.closing, h.state, hcut.opening, hcut.closing, hcut.state]
    simp [spanAt, Span.moved, Nat.add_assoc]
  refine ⟨h, ?_, ?_, ?_, ?_⟩
  · simp only [Node.text, TokenTree.text]
    rw [hspan, hcut.span_eq]
    exact hslice hcut.covers
  · rw [h.opening, hcut.opening]
    exact hslice hx
  · simp only [Node.content, TokenTree.content]
    rw [h.content, hcut.content]
    exact hslice hy
  · rw [h.closing, hcut.closing]
    exact hslice hz

/-- **Twins are moved** where the source of the one is a part of the source of the other. -/
theorem Node.Twin.moved {before after : Text} {m n : Node K} (hd : t.tokens.Drawn rules o)
    (hsource : t'.tokens.source = before ++ t.tokens.source ++ after) (hδ : Text.bytes before = δ)
    (htwin : Node.Twin rules t t' o o' δ m n) : m.Moved δ n := by
  have htoken := htwin.token
  cases htwin with
  | site hab => exact htoken.node hd (hd.getElem?_eq (.own hab.sited)) hsource hδ
  | seed hab => exact htoken.node hd (hd.getElem?_eq (.seed hab.sited)) hsource hδ

section

variable [DecidableEq K] [Taxonomy K] {m n : Node K}

/-- **Twins have the same children.** -/
theorem Node.Twin.children (h : t.Parsed) (h' : t'.Parsed) (hd : t.tokens.Drawn rules o)
    (hd' : t'.tokens.Drawn rules o') (htwin : Node.Twin rules t t' o o' δ m n) :
    List.Forall₂ (Node.Twin rules t t' o o' δ) m.children.value n.children.value := by
  cases htwin with
  | @site a b hab =>
    have hparts : List.Forall₂ (Node.Twin rules t t' o o' δ) _ _ := Site.twins_nodes hab.parts
    obtain ⟨hsegment, hstart, hs, hs'⟩ := hab
    obtain ⟨segment, parent, start, id, next⟩ := a
    obtain ⟨_, parent', start', id', next'⟩ := b
    dsimp only at hsegment hstart
    subst hsegment hstart
    have hleaf : NodeTree.project t.tokens id = [] → NodeTree.project t'.tokens id' = [] →
        List.Forall₂ (Node.Twin rules t t' o o' δ)
          (Site.node t (layout rules t.tokens.source) ⟨segment, parent, start, id, next⟩).children.value
          (Site.node t' (layout rules t'.tokens.source)
            ⟨segment, parent', start + δ, id', next'⟩).children.value := by
      intro hnil hnil'
      rw [Site.node, Site.node, h.children_eq_nil hnil, h'.children_eq_nil hnil']
      exact .nil
    have htoken := hd.getElem?_eq (.own hs)
    have htoken' := hd'.getElem?_eq (.own hs')
    cases segment with
    | literal plain swallowed =>
      apply hleaf
      · simp only [NodeTree.project, htoken]
        rfl
      · simp only [NodeTree.project, htoken']
        rfl
    | tag tag content closing =>
      apply hleaf
      · simp only [NodeTree.project, htoken]
        rfl
      · simp only [NodeTree.project, htoken']
        rfl
    | nest tag seed first siblings closing =>
      rw [Site.children_nest h hd hs, Site.children_nest h' hd' hs']
      refine List.rel_append ?_ hparts
      cases seed.isEmpty with
      | true => exact .nil
      | false => exact .cons (.seed ⟨rfl, rfl, hs, hs'⟩) .nil
  | seed hab =>
    rw [Site.seedNode, Site.seedNode, h.children_eq_nil (hd.project_seed hab.sited),
      h'.children_eq_nil (hd'.project_seed hab.sited')]
    exact .nil

end

/-- Twins are nodes of their trees. -/
theorem Node.Twin.has {m n : Node K} (hd : t.tokens.Drawn rules o) (hd' : t'.tokens.Drawn rules o')
    (htwin : Node.Twin rules t t' o o' δ m n) : t.Has m ∧ t'.Has n := by
  have hhas : ∀ {t : NodeTree K} {i : Nat} {p : Token K}, t.tokens.tokens[i]? = some p →
      t.Has ⟨t, i, p⟩ := by
    intro t i p hp
    unfold NodeTree.Has NodeTree.node?
    rw [hp]
    rfl
  cases htwin with
  | site hab =>
    exact ⟨hhas (hd.getElem?_eq (.own hab.sited)), hhas (hd'.getElem?_eq (.own hab.sited'))⟩
  | seed hab =>
    exact ⟨hhas (hd.getElem?_eq (.seed hab.sited)), hhas (hd'.getElem?_eq (.seed hab.sited'))⟩

/-- **Twins have the same branch,** moved on. -/
theorem Node.Twin.exists_branches [DecidableEq K] [Taxonomy K] {before after : Text} {m n : Node K}
    (h : t.Parsed) (h' : t'.Parsed) (hd : t.tokens.Drawn rules o) (hd' : t'.tokens.Drawn rules o')
    (hsource : t'.tokens.source = before ++ t.tokens.source ++ after) (hδ : Text.bytes before = δ)
    (htwin : Node.Twin rules t t' o o' δ m n) :
    ∃ b b' : Branch K, b.Grows ∧ b.head = m ∧ b'.Grows ∧ b'.head = n ∧ b.Moved δ b' := by
  obtain ⟨hm, hn⟩ := htwin.has hd hd'
  obtain ⟨htree, hm⟩ := NodeTree.has_iff.1 hm
  obtain ⟨htree', hn⟩ := NodeTree.has_iff.1 hn
  obtain ⟨b, hb, rfl, -⟩ := NodeTree.Parsed.exists_branch_of (htree ▸ h) hm
  obtain ⟨b', hb', rfl, -⟩ := NodeTree.Parsed.exists_branch_of (htree' ▸ h') hn
  have hmoved := hb.moved (fun _ _ hmn => hmn.moved hd hsource hδ)
    (fun _ _ hmn => hmn.children h h' hd hd') hb' htwin
  exact ⟨b, b', hb, rfl, hb', rfl, hmoved⟩

/-! ## Tags parsed alone -/

namespace TokenTree

variable {t : TokenTree K} {rules : Ruleset K} {o : Outline K}

/-- The token of a tag is that of a site. -/
theorem Drawn.exists_site (h : t.Drawn rules o) {i rule : Nat} {token : Token K}
    (hi : t.tokens[i]? = some token) (hv : token.variant = .tag rule) :
    ∃ site, o.Sited site ∧ site.id = i ∧ token = (site.own (layout rules t.source)).token ∧
      site.segment.isLiteral = false := by
  obtain ⟨c, hc, rfl⟩ := h.token_stands hi
  cases hc with
  | @own site hs =>
    refine ⟨site, hs, rfl, rfl, ?_⟩
    rw [← isLiteral_own (layout rules t.source) site, Token.isLiteral, hv]
  | seed _ => cases hv
  | @group tag seed closing first siblings parent start id next _ =>
    have hab := Site.abut_nest tag seed closing first siblings parent start id next
    rw [Course.token_group _ _ hab] at hv
    cases hv
  | root _ =>
    rw [Course.token_group _ none o.abut_sites] at hv
    cases hv

variable [DecidableEq K] [Taxonomy K] {limits : Limits}

/-- **A tag of a tree is parsed alone.** A scan of its text gives a tree whose root is a tag of
the same rule. The branch of the root is that of the tag, except that all positions begin where
the tag does. -/
def ParsedAlone (rules : Ruleset K) (limits : Limits) (constraints : K → Option (Constraints K))
    (t : TokenTree K) (i : Nat) (token : Token K) : Prop :=
  ∃ (alone : TokenTree K) (rule start : Nat) (b b' : Branch K),
    scan rules limits (t.text token) = .ok alone ∧
    token.variant = .tag rule ∧ alone.rootToken.variant = .tag rule ∧
    token.span.map Span.start = some start ∧
    b.Grows ∧ b.head = (NodeTree.ofTokens constraints alone).root ∧
    b'.Grows ∧ b'.head = ⟨NodeTree.ofTokens constraints t, i, token⟩ ∧
    b.Moved start b'

/-- **Parsing is local to a tag** over a local ruleset. -/
theorem Drawn.parsedAlone (hl : rules.Local) (h : scan rules limits t.source = .ok t)
    (hd : t.Drawn rules o) {i rule : Nat} {token : Token K} (hi : t.tokens[i]? = some token)
    (hv : token.variant = .tag rule) (constraints : K → Option (Constraints K)) :
    ParsedAlone rules limits constraints t i token := by
  obtain ⟨site, hs, rfl, rfl, hliteral⟩ := hd.exists_site hi hv
  obtain ⟨halone, hscan⟩ := hd.scan_alone hl h hs hliteral
  obtain ⟨htext, hspan⟩ := hd.text_own hs
  obtain ⟨before, after, hsource, hbefore⟩ := hs.text_at
  rw [hd.text_eq] at hsource
  have hparsed : (NodeTree.ofTokens constraints t).Parsed := .scan constraints h
  have hparsed' : (NodeTree.ofTokens constraints
      (ofOutline rules site.segment.text (.single site.segment))).Parsed := .scan constraints hscan
  have hd' : (NodeTree.ofTokens constraints (ofOutline rules site.segment.text
      (.single site.segment))).tokens.Drawn rules (.single site.segment) := drawn_ofOutline halone
  -- the tag stands at the start of the one text and at its place in the other
  have htwin : Site.Twin (.single site.segment) o site.start ⟨site.segment, none, 0, 0, 1⟩ site :=
    ⟨rfl, (Nat.zero_add _).symm, .top List.mem_cons_self, hs⟩
  obtain ⟨b, b', hb, hhead, hb', hhead', hmoved⟩ :=
    (Node.Twin.site htwin).exists_branches hparsed' hparsed hd' hd hsource hbefore
  rw [← hd'.root_single] at hhead
  have hrule := hmoved.head.token.variant
  rw [hhead, hhead'] at hrule
  have hvariant := Variant.eq_tag_of_moved (hrule.symm.trans hv)
  refine ⟨_, rule, site.start, b, b', htext ▸ hscan, hv, hvariant, ?_, hb, hhead, hb', hhead',
    hmoved⟩
  rw [hspan]
  rfl

end TokenTree

section

variable [DecidableEq K] [Taxonomy K] {limits : Limits} {source : Text} {t : TokenTree K}

/-- **Parsing is local to a tag** over tags between fixed texts. The text of a tag token, parsed
alone under the same bounds, gives a tag of the same rule with the same nodes below it: the
same kinds, rules, texts, extra fields and children in the same order, with all positions
counted from the start of the tag. -/
theorem scan_local (literalKind groupKind : K) (pairs : List (Pair K))
    (h : TokenTree.scan (.ofPairs literalKind groupKind pairs) limits source = .ok t)
    {i rule : Nat} {token : Token K} (hi : t.tokens[i]? = some token)
    (hv : token.variant = .tag rule) (constraints : K → Option (Constraints K)) :
    t.ParsedAlone (.ofPairs literalKind groupKind pairs) limits constraints i token := by
  obtain ⟨hsource, o, hd⟩ := TokenTree.scan_drawn h
  have hl := Ruleset.local_ofPairs literalKind groupKind pairs
  rw [← hsource] at h
  exact hd.parsedAlone hl h hi hv constraints

end

namespace Template

/-- Tags between angle brackets, of which one opens with two of the close delimiters of the
other. -/
def angles : List (Pair Kind) := [⟨.var, ['<'], ['>']⟩, ⟨.filter, ['>', '>'], ['|']⟩]

/-- A tag with a tag inside that ends in front of a close delimiter. -/
def angled : Text := ['é', '<', 'ü', '<', 'b', '>', 'c', '>', '>', 'd']

theorem scan_angled : ∃ t, TokenTree.scan (.ofPairs .text .document angles) .default angled = .ok t ∧
    (t.tokens[1]?).any (fun token => token.variant == .tag 0 && token.span == some ⟨2, 10⟩) = true :=
  TokenTree.exists_ok_of_any (by cbv)

theorem scan_local_angled : ∃ t token,
    TokenTree.scan (.ofPairs .text .document angles) .default angled = .ok t ∧
      t.tokens[1]? = some token ∧ token.variant = .tag 0 ∧ token.span = some ⟨2, 10⟩ ∧
      t.ParsedAlone (.ofPairs .text .document angles) .default constraints 1 token := by
  obtain ⟨t, ht, htest⟩ := scan_angled
  obtain ⟨token, htoken, htest⟩ := (Option.any_eq_true _ _).1 htest
  simp only [Bool.and_eq_true, beq_iff_eq] at htest
  obtain ⟨hvariant, hspan⟩ := htest
  exact ⟨t, token, ht, htoken, hvariant, hspan,
    scan_local .text .document angles ht htoken hvariant constraints⟩

end Template

end Bracketry
