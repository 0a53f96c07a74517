import Bracketry.Proofs.Ancestry
import Bracketry.Proofs.Expense

/-!
# Bounds cut a scan short

How deep a scan delegates is seen in its tree: it is the number of tags that enclose the token
that most tags enclose. So a tree tells which bounds leave room for it, and what a scan says
under some bounds tells what it says under any others.

* `TokenTree.Drawn.nested_iff`: **a scan delegates as deep as its tokens are nested.**
* `TokenTree.scan_needs`, `TokenTree.scan_needs_open`: what a scan takes.
* `scan_limited`: **bounds only cut a scan short, they never change its answer.**
-/

namespace Bracketry

variable {K : Type} {rules : Ruleset K}

/-! ## The depth of tokens -/

/-- The nesting of segments in a row is that of one of them. -/
theorem Segment.exists_deepest {segments : List (Segment K)} (h : segments ≠ []) :
    ∃ s ∈ segments, s.nesting = nesting.deepest segments := by
  induction segments with
  | nil => exact absurd rfl h
  | cons s rest ih =>
    by_cases hle : nesting.deepest rest ≤ s.nesting
    · refine ⟨s, List.mem_cons_self, ?_⟩
      simp only [nesting.deepest]
      omega
    · have hne : rest ≠ [] := by
        rintro rfl
        exact hle (Nat.zero_le _)
      obtain ⟨s', hmem, hs'⟩ := ih hne
      refine ⟨s', List.mem_cons_of_mem _ hmem, ?_⟩
      simp only [nesting.deepest]
      omega

theorem Segment.nesting_le {segments : List (Segment K)} {s : Segment K} (h : s ∈ segments) :
    s.nesting ≤ nesting.deepest segments := by
  induction segments with
  | nil => cases h
  | cons s' rest ih =>
    simp only [nesting.deepest]
    rcases List.mem_cons.1 h with rfl | h
    · omega
    · have hle := ih h
      omega

/-- The segments inside a tag. -/
theorem Site.map_segment_parts (tag : Tag K) (seed closing : Text) (first : Segment K)
    (siblings : List (Segment K)) (parent : Option Nat) (start id next : Nat) :
    (parts ⟨.nest tag seed first siblings closing, parent, start, id, next⟩).map segment =
      first :: siblings :=
  congrArg _ (map_segment_row _ _ _ _)

namespace TokenTree

/-- The nodes of a tree that is not strict anywhere. -/
def nodes (t : TokenTree K) : NodeTree K := .ofTokens (fun _ => none) t

/-- No token of a tree is enclosed by more than `depth` tags. -/
def Nested (t : TokenTree K) (depth : Nat) : Prop :=
  ∀ id node, t.nodes.node? id = some node → node.depth ≤ depth

variable {t : TokenTree K} {o : Outline K}

theorem depth_top (t : TokenTree K) (l : Layout K) {site : Site K} (hs : site ∈ o.sites) :
    (site.node t.nodes l).depth = 0 := by
  have hparent : (site.node t.nodes l).token.parent = none :=
    (Site.parent_own _ site).trans (Outline.parent_top hs)
  rw [Node.depth, NodeTree.ancestors_eq_nil hparent]
  rfl

section

variable (h : t.Drawn rules o)

include h

theorem Drawn.node?_own {site : Site K} (hs : o.Sited site) :
    t.nodes.node? site.id = some (site.node t.nodes (layout rules t.source)) := by
  have htoken : t.nodes.tokens.tokens[site.id]? = _ := h.getElem?_eq (.own hs)
  rw [NodeTree.node?, htoken]
  rfl

/-- What a tag encloses is one level deeper than the tag. -/
theorem Drawn.depth_inside {outer : Site K} (hs : o.Sited outer) {node : Node K}
    (htree : node.tree = t.nodes) (hparent : node.token.parent = some outer.id) :
    node.depth = (outer.node t.nodes (layout rules t.source)).depth + 1 := by
  have hd : (outer.node t.nodes (layout rules t.source)).tree.tokens.Drawn rules o := h
  have hgenuine : (outer.node t.nodes (layout rules t.source)).Genuine := h.node?_own hs
  rw [Node.depth, NodeTree.ancestors_eq_cons hd hgenuine htree hparent]
  rfl

theorem Drawn.depth_part {outer site : Site K} (hs : o.Sited outer) (hmem : site ∈ outer.parts) :
    (site.node t.nodes (layout rules t.source)).depth =
      (outer.node t.nodes (layout rules t.source)).depth + 1 :=
  h.depth_inside hs rfl ((Site.parent_own _ site).trans (Site.parent_part hmem))

/-- A site is as deep as the outline leaves room for. -/
theorem Drawn.depth_add_nesting_le {site : Site K} (hs : o.Sited site) :
    (site.node t.nodes (layout rules t.source)).depth + site.segment.nesting ≤ o.nesting := by
  induction hs with
  | @top site hmem =>
    have hsegment : site.segment ∈ o.segments := by
      rw [← o.map_segment_sites]
      exact List.mem_map_of_mem hmem
    have hle := Segment.nesting_le hsegment
    rw [depth_top _ _ hmem, Nat.zero_add]
    exact hle
  | @part outer site hs hmem ih =>
    rw [h.depth_part hs hmem]
    obtain ⟨segment, parent, start, id, next⟩ := outer
    cases segment with
    | literal plain swallowed => cases hmem
    | tag tag content closing => cases hmem
    | nest tag seed first siblings closing =>
      have hsegment : site.segment ∈ first :: siblings := by
        rw [← Site.map_segment_parts tag seed closing first siblings parent start id next]
        exact List.mem_map_of_mem hmem
      have hle := Segment.nesting_le hsegment
      have hnest : (Segment.nest tag seed first siblings closing).nesting =
          Segment.nesting.deepest (first :: siblings) + 1 := rfl
      dsimp only at ih
      omega

/-- Below every site, tags are nested as deep as in its segment. -/
theorem Drawn.exists_depth_eq {depth : Nat} {site : Site K} (hs : o.Sited site)
    (hdepth : site.segment.nesting = depth) :
    ∃ below, o.Sited below ∧ (below.node t.nodes (layout rules t.source)).depth =
      (site.node t.nodes (layout rules t.source)).depth + depth := by
  induction depth generalizing site with
  | zero => exact ⟨site, hs, rfl⟩
  | succ depth ih =>
    obtain ⟨segment, parent, start, id, next⟩ := site
    cases segment with
    | literal plain swallowed => cases hdepth
    | tag tag content closing => cases hdepth
    | nest tag seed first siblings closing =>
      -- the deepest of the parts is nested one level less
      obtain ⟨s, hmem, hs'⟩ := Segment.exists_deepest (List.cons_ne_nil first siblings)
      rw [← Site.map_segment_parts tag seed closing first siblings parent start id next] at hmem
      obtain ⟨part, hpart, rfl⟩ := List.mem_map.1 hmem
      have hpartDepth : part.segment.nesting = depth := by
        have hnest : (Segment.nest tag seed first siblings closing).nesting =
            Segment.nesting.deepest (first :: siblings) + 1 := rfl
        dsimp only at hdepth
        omega
      obtain ⟨below, hbelow, heq⟩ := ih (.part hs hpart) hpartDepth
      refine ⟨below, hbelow, ?_⟩
      rw [heq, h.depth_part hs hpart]
      omega

/-- **A scan delegates as deep as its tokens are nested.** -/
theorem Drawn.nested_iff (depth : Nat) : t.Nested depth ↔ o.nesting ≤ depth := by
  constructor
  · intro hn
    have hne : o.segments ≠ [] := by
      cases o <;> exact List.cons_ne_nil _ _
    obtain ⟨s, hmem, hs⟩ := Segment.exists_deepest hne
    rw [← o.map_segment_sites] at hmem
    obtain ⟨site, hsite, rfl⟩ := List.mem_map.1 hmem
    obtain ⟨below, hbelow, heq⟩ := h.exists_depth_eq (.top hsite) hs
    have hle := hn _ _ (h.node?_own hbelow)
    rw [heq, depth_top _ _ hsite, Nat.zero_add] at hle
    exact hle
  · intro hle id node hnode
    obtain ⟨htree, -, htoken⟩ := NodeTree.node?_eq_some hnode
    obtain ⟨c, hc, hcourse⟩ := h.token_stands htoken
    -- the seed and the group of a tag are as deep as its parts
    have hinside : ∀ outer : Site K, o.Sited outer → 0 < outer.segment.nesting →
        node.token.parent = some outer.id → node.depth ≤ depth := by
      intro outer hs hpos hparent
      have hdepth := h.depth_inside hs htree hparent
      have hbound := h.depth_add_nesting_le hs
      omega
    cases hc with
    | @own site hs =>
      have heq := hnode.symm.trans (h.node?_own hs)
      have hbound := h.depth_add_nesting_le hs
      rw [← Option.some.inj heq] at hbound
      omega
    | seed hs => exact hinside _ hs (Nat.succ_pos _) (by rw [hcourse]; rfl)
    | group hs => exact hinside _ hs (Nat.succ_pos _) (by rw [hcourse, Course.parent_token]; rfl)
    | root _ =>
      have hparent : node.token.parent = none := by
        rw [hcourse, Course.parent_token]
        rfl
      rw [Node.depth, NodeTree.ancestors_eq_nil hparent]
      exact Nat.zero_le _

theorem Drawn.size_eq_count : t.size = o.count := by
  rw [h.size_eq, Outline.length_courses]

end

/-! ## Trees within bounds -/

/-- The bounds leave room for the tokens of a tree and for the tags that enclose them. -/
structure Within (t : TokenTree K) (l : Limits) : Prop where
  size_le : t.size ≤ l.tokens ∨ Limits.unbounded ≤ l.tokens
  nested : t.Nested l.depth

theorem Drawn.within_iff (h : t.Drawn rules o) (l : Limits) :
    t.Within l ↔ l.Room o.nesting o.count := by
  constructor
  · intro hw
    have hsize := hw.size_le
    rw [h.size_eq_count] at hsize
    exact ⟨(h.nested_iff _).1 hw.nested, hsize⟩
  · intro hr
    have htokens := hr.tokens_le
    rw [← h.size_eq_count] at htokens
    exact ⟨htokens, (h.nested_iff _).2 hr.depth_le⟩

end TokenTree

/-! ## Scans under bounds -/

namespace TokenTree

variable [DecidableEq K] [Taxonomy K] {source : Text}

theorem scan_needs {o : Outline K} (h : OutlineRead rules source o) (l : Limits) :
    l.Needs o.nesting o.count (.ok (ofOutline rules source o)) (scan rules l source) := by
  rw [scan_eq]
  exact (h.needs l).bind_free fun o => .ok (ofOutline rules source o)

theorem scan_needs_open {t : Tag K} {left : Text} (h : OutlineOpen rules source t left) :
    ∃ deep more, (rules.opening? [] = none →
        deep ≤ Text.bytes source ∧ more ≤ 4 * Text.bytes source + 1) ∧
      ∀ l : Limits, l.Needs deep more
        (.error (t.unclosed (Text.bytes source - Text.bytes left))) (scan rules l source) := by
  obtain ⟨deep, more, hsmall, hneeds⟩ := h.exists_needs
  refine ⟨deep, more, hsmall, fun l => ?_⟩
  rw [scan_eq]
  exact (hneeds l).bind_error

end TokenTree

/-- The answers of a scan that stopped one step beyond one of its bounds. -/
def StopsShort (l : Limits) (answer : Except Error (TokenTree K)) : Prop :=
  answer = .error (.tooMany (l.tokens + 1) l.tokens) ∨
    answer = .error (.tooDeep (l.depth + 1) l.depth)

theorem Limits.Stops.stopsShort {l : Limits} {depth tokens : Nat} {e : Error}
    (h : l.Stops depth tokens e) : StopsShort (K := K) l (.error e) := by
  cases h with
  | tooDeep _ => exact .inr rfl
  | tooMany _ _ => exact .inl rfl

section

variable [DecidableEq K] [Taxonomy K]

/-- **Bounds only cut a scan short.** If a scan gives a tree under some bounds, it gives the
same tree under all bounds that leave room for it. If it finds a tag that is left open, it
finds the same tag under all bounds that are no closer. Otherwise it stops one step beyond a
bound. -/
theorem scan_limited (rules : Ruleset K) (source : Text) (l l' : Limits) :
    (∀ t, TokenTree.scan rules l source = .ok t →
      (TokenTree.scan rules l' source = .ok t ↔ t.Within l') ∧
        (¬t.Within l' → StopsShort l' (TokenTree.scan rules l' source))) ∧
    (∀ opening expected offset,
      TokenTree.scan rules l source = .error (.unclosed opening expected offset) →
      (TokenTree.scan rules l' source = .error (.unclosed opening expected offset) ∨
        StopsShort l' (TokenTree.scan rules l' source)) ∧
        (l.depth ≤ l'.depth → l.tokens ≤ l'.tokens →
          TokenTree.scan rules l' source = .error (.unclosed opening expected offset))) := by
  constructor
  · intro t h
    obtain ⟨hsource, o, hd⟩ := TokenTree.scan_drawn h
    subst hsource
    have hneeds := TokenTree.scan_needs hd.read l'
    rw [← hd.eq_ofOutline] at hneeds
    rw [hd.within_iff]
    by_cases hroom : l'.Room o.nesting o.count
    · exact ⟨⟨fun _ => hroom, fun _ => hneeds.room hroom⟩, fun hn => absurd hroom hn⟩
    · obtain ⟨e, hstops, hscan⟩ := hneeds.full hroom
      rw [hscan]
      exact ⟨⟨fun hok => (nomatch hok), fun hr => absurd hr hroom⟩, fun _ => hstops.stopsShort⟩
  · intro opening expected offset h
    have hanswers := TokenTree.scan_answers rules l source
    rw [h] at hanswers
    generalize herror : Error.unclosed opening expected offset = e at h hanswers
    cases hanswers with
    | limit hl =>
      rw [← herror] at hl
      exact hl.elim
    | @unclosed t left hopen =>
      obtain ⟨deep, more, -, hneeds⟩ := TokenTree.scan_needs_open hopen
      -- the scan that found the tag had room to get there
      have hroom : l.Room deep more := by
        by_contra hn
        obtain ⟨e, hstops, hscan⟩ := (hneeds l).full hn
        have hlimit := hstops.isLimit
        rw [h] at hscan
        cases hscan
        exact hlimit
      constructor
      · by_cases hroom' : l'.Room deep more
        · exact .inl ((hneeds l').room hroom')
        · obtain ⟨e, hstops, hscan⟩ := (hneeds l').full hroom'
          rw [hscan]
          exact .inr hstops.stopsShort
      · intro hd ht
        have htokens := hroom.tokens_le
        exact (hneeds l').room ⟨Nat.le_trans hroom.depth_le hd, by omega⟩

end

theorem scan_limited_sample :
    (∃ t, TokenTree.scan Template.rules .default Template.sample = .ok t ∧
      ¬t.Within ⟨0, Limits.unbounded⟩ ∧
      StopsShort ⟨0, Limits.unbounded⟩
        (TokenTree.scan Template.rules ⟨0, Limits.unbounded⟩ Template.sample)) ∧
    TokenTree.scan Template.rules .default ['\x7b', '\x7b', 'a'] =
      .error (.unclosed "\x7b\x7b" (some "\x7d\x7d") 0) ∧
    TokenTree.scan Template.rules ⟨200, Limits.unbounded⟩ ['\x7b', '\x7b', 'a'] =
      .error (.unclosed "\x7b\x7b" (some "\x7d\x7d") 0) := by
  obtain ⟨t, ht, -⟩ := Template.scan_sample
  obtain ⟨hiff, hshort⟩ :=
    (scan_limited Template.rules Template.sample .default ⟨0, Limits.unbounded⟩).1 t ht
  have hdeep : TokenTree.scan Template.rules ⟨0, Limits.unbounded⟩ Template.sample =
      .error (.tooDeep 1 0) := by cbv
  have hwithin : ¬t.Within ⟨0, Limits.unbounded⟩ := by
    intro hw
    have hok := hiff.2 hw
    rw [hdeep] at hok
    cases hok
  have hopen : TokenTree.scan Template.rules .default ['\x7b', '\x7b', 'a'] =
      .error (.unclosed "\x7b\x7b" (some "\x7d\x7d") 0) := by cbv
  have hsame := (scan_limited Template.rules _ .default ⟨200, Limits.unbounded⟩).2 _ _ _ hopen
  exact ⟨⟨t, ht, hwithin, hshort hwithin⟩, hopen, hsame.2 (by decide) (Nat.le_refl _)⟩

end Bracketry
