import Bracketry.Proofs.Places

/-!
# Groups are partitions

A group holds the tags and the literals of one level. The level alternates: two
literals never follow each other, because a literal stops where a tag opens. An
empty literal can stand only at either end of a level, and a group leaves it out.

* `LevelRead.alternates`: no two segments of a level in a row are literals.
* `partitions_of_row`: what a group keeps of children in a row partitions it.
* `scan_partitions`: **the children of every group of a scanned tree are tags and
  non-empty literals that partition it.**
-/

namespace Bracketry

variable {K : Type}

def Segment.isLiteral : Segment K → Bool
  | .literal _ _ => true
  | _ => false

/-- Two segments of which at most one is a literal. -/
def Segment.Alternate (s s' : Segment K) : Prop := ¬(s.isLiteral = true ∧ s'.isLiteral = true)

theorem Segment.isEmptyLiteral_of_not_literal {s : Segment K} (h : s.isLiteral = false) :
    s.isEmptyLiteral = false := by
  cases s <;> first | rfl | cases h

/-- Two tokens of which at most one is a literal. -/
def Token.Alternate (p q : Token K) : Prop := ¬(p.isLiteral = true ∧ q.isLiteral = true)

/-! ## Levels alternate -/

variable {rules : Ruleset K}

theorem TagRead.isLiteral_eq {o : Opening K} {text rest : Text} {s : Segment K}
    (h : TagRead rules o text s rest) : s.isLiteral = false := by
  cases h <;> rfl

/-- A tag may stand before anything. -/
theorem isChain_cons_of_not_literal {s : Segment K} {segments : List (Segment K)}
    (hs : s.isLiteral = false) (h : segments.IsChain Segment.Alternate) :
    (s :: segments).IsChain Segment.Alternate := by
  cases segments with
  | nil => exact .singleton s
  | cons s' rest => exact .cons_cons (by simp [Segment.Alternate, hs]) h

/-- Where a tag opens, the level does not begin with a literal. -/
theorem LevelRead.head_of_opens {closes : Text → Option Nat} {text rest : Text}
    {s : Segment K} {segments : List (Segment K)} {closing : Option Text} {o : Opening K}
    (h : LevelRead rules closes text (s :: segments) closing rest)
    (ho : rules.opening? text = some o) : s.isLiteral = false := by
  cases h with
  | swallows _ hn _ => rw [hn] at ho; cases ho
  | literal _ hn _ _ => rw [hn] at ho; cases ho
  | tag _ _ ht _ => exact ht.isLiteral_eq

/-- **A level alternates.** No two of its segments in a row are literals. -/
theorem LevelRead.alternates {closes : Text → Option Nat} {text rest : Text}
    {segments : List (Segment K)} {closing : Option Text}
    (h : LevelRead rules closes text segments closing rest) :
    segments.IsChain Segment.Alternate := by
  induction segments generalizing text with
  | nil => exact .nil
  | cons s segments ih =>
    cases h with
    | swallows _ _ _ => exact .singleton _
    | tag _ _ ht hl => exact isChain_cons_of_not_literal ht.isLiteral_eq (ih hl)
    | literal _ _ hs hl =>
      -- the next segment begins where the literal stopped: at the end or at a tag
      cases segments with
      | nil => exact .singleton _
      | cons s' rest' =>
        refine .cons_cons ?_ (ih hl)
        rcases (boundary_stop hs).2 with hnil | ⟨o, ho⟩
        · rw [hnil] at hl
          cases hl <;> contradiction
        · simp [Segment.Alternate, hl.head_of_opens ho]

/-- Without an enclosing tag, a literal that starts before the end is not empty. -/
theorem SegmentRead.not_empty {text rest : Text} {s : Segment K}
    (h : SegmentRead rules noTag text s rest) (hne : text ≠ []) : s.isEmptyLiteral = false := by
  cases h with
  | swallows _ hs => exact absurd hs (literalStop_noTag _ _ _ _ _)
  | tag _ ht => cases ht <;> rfl
  | @literal plain _ ho hs =>
    have hlt := Ruleset.length_lt_of_boundary ho hne hs
    have htext := Ruleset.literalStop_boundary hs
    cases plain with
    | nil => rw [List.nil_append] at htext; rw [htext] at hlt; omega
    | cons c r => rfl

/-! ## What a group keeps -/

/-- Tokens in a row from one position to another. -/
inductive Adjacent : Nat → List (Token K) → Nat → Prop
  | nil (a : Nat) : Adjacent a [] a
  | cons {a m b : Nat} {p : Token K} {rest : List (Token K)} :
      p.span = some ⟨a, m⟩ → Adjacent m rest b → Adjacent a (p :: rest) b

/-- Some tokens of a tree partition a group: they are its children, tags or
literals that are not empty, no two literals follow each other, and they stand in
a row from where the group starts to where it stops. -/
structure TokenTree.Partitions (t : TokenTree K) (group : Token K) (parts : List (Token K)) :
    Prop where
  children : group.children.map (fun id => t.tokens[id]?) = parts.map some
  nonempty : parts ≠ []
  plain : ∀ p ∈ parts, (∃ rule, p.variant = .tag rule) ∨
    ((∃ swallowed, p.variant = .literal swallowed) ∧ t.text p ≠ [])
  alternate : parts.IsChain Token.Alternate
  adjacent : ∃ a b, group.span = some ⟨a, b⟩ ∧ Adjacent a parts b
  text_eq : (parts.map t.text).flatten = t.text group

/-- A token is what a child stands for. -/
structure TokenTree.Fits (t : TokenTree K) (c : Child) (p : Token K) : Prop where
  token : t.tokens[c.id]? = some p
  span : p.span = some c.span
  isGroup : p.isGroup = false
  empty : c.emptyLiteral = true ↔ p.isLiteral = true ∧ t.text p = []

/-- The children that a group keeps, with their tokens. -/
def solid (row : List (Child × Token K)) : List (Child × Token K) :=
  row.filter fun q => !q.1.emptyLiteral

variable {t : TokenTree K}

/-- A child that is kept is a tag or a literal that is not empty. -/
theorem TokenTree.Fits.plain {c : Child} {p : Token K} (h : t.Fits c p)
    (he : c.emptyLiteral = false) : (∃ rule, p.variant = .tag rule) ∨
      ((∃ swallowed, p.variant = .literal swallowed) ∧ t.text p ≠ []) := by
  have hg := h.isGroup
  have hemp := h.empty
  cases hv : p.variant with
  | tag rule => exact .inl ⟨rule, rfl⟩
  | group children => simp [Token.isGroup, hv] at hg
  | literal swallowed =>
    refine .inr ⟨⟨swallowed, rfl⟩, fun htext => ?_⟩
    rw [hemp.2 ⟨by simp [Token.isLiteral, hv], htext⟩] at he
    cases he

/-- Leaving out literals keeps a row alternating. -/
theorem isChain_filter {α : Type} (lit keep : α → Bool) {row : List α}
    (hk : ∀ a ∈ row, keep a = false → lit a = true)
    (h : row.IsChain fun a b => ¬(lit a = true ∧ lit b = true)) :
    (row.filter keep).IsChain fun a b => ¬(lit a = true ∧ lit b = true) := by
  induction row with
  | nil => exact .nil
  | cons a rest ih =>
    obtain ⟨hka, hkrest⟩ := List.forall_mem_cons.1 hk
    have hrest := ih hkrest h.tail
    cases ha : keep a with
    | false => rwa [List.filter_cons_of_neg (by simp [ha])]
    | true =>
      rw [List.filter_cons_of_pos ha]
      cases hl : lit a with
      | false =>
        -- what is not a literal may stand before anything
        cases hf : rest.filter keep with
        | nil => exact .singleton a
        | cons b l => rw [hf] at hrest; exact .cons_cons (by simp [hl]) hrest
      | true =>
        -- after a literal comes no literal, and that is kept
        cases rest with
        | nil => exact .singleton a
        | cons b l =>
          obtain ⟨hab, -⟩ := List.isChain_cons_cons.1 h
          have hb : keep b = true := by
            cases hkb : keep b with
            | true => rfl
            | false => exact absurd ⟨hl, (List.forall_mem_cons.1 hkrest).1 hkb⟩ hab
          rw [List.filter_cons_of_pos hb] at hrest ⊢
          exact .cons_cons hab hrest

/-- What a group keeps of children in a row stands in a row. -/
theorem TokenTree.adjacent_kept {children : List Child} {a b : Nat}
    (h : Abut a children b) (hfits : ∀ c ∈ children, ∃ p, t.Fits c p) :
    Adjacent a ((kept children).filterMap fun j => t.tokens[j]?) b := by
  induction h with
  | nil a => exact .nil a
  | @cons a m b c rest hspan _ he _ ih =>
    obtain ⟨⟨p, hp⟩, hrest⟩ := List.forall_mem_cons.1 hfits
    have hr := ih hrest
    have hpspan := hp.span
    rw [hspan] at hpspan
    cases hempty : c.emptyLiteral with
    | true =>
      rw [he hempty] at hr
      simpa [kept, hempty] using hr
    | false => simpa [kept, hempty, hp.token] using Adjacent.cons hpspan hr

section Row

variable {row : List (Child × Token K)} (hfit : ∀ q ∈ row, t.Fits q.1 q.2)

include hfit

theorem children_of_row : (kept (row.map Prod.fst)).map (fun id => t.tokens[id]?) =
    ((solid row).map Prod.snd).map some := by
  induction row with
  | nil => rfl
  | cons q rest ih =>
    obtain ⟨hq, hrest⟩ := List.forall_mem_cons.1 hfit
    have hr := ih hrest
    cases he : q.1.emptyLiteral with
    | true => simpa [kept, solid, he] using hr
    | false => simpa [kept, solid, he, hq.token] using hr

theorem tokens_of_row : (kept (row.map Prod.fst)).filterMap (fun id => t.tokens[id]?) =
    (solid row).map Prod.snd := by
  have hmap := congrArg (List.filterMap id) (children_of_row hfit)
  rw [List.filterMap_map, List.filterMap_map] at hmap
  exact hmap.trans List.filterMap_some

theorem adjacent_of_row {a b : Nat} (h : Abut a (row.map Prod.fst) b) :
    Adjacent a ((solid row).map Prod.snd) b := by
  have hfits : ∀ c ∈ row.map Prod.fst, ∃ p, t.Fits c p := by
    intro c hc
    obtain ⟨q, hq, rfl⟩ := List.mem_map.1 hc
    exact ⟨q.2, hfit q hq⟩
  rw [← tokens_of_row hfit]
  exact TokenTree.adjacent_kept h hfits

theorem texts_of_row : ((solid row).map fun q => t.text q.2).flatten =
    (row.map fun q => t.text q.2).flatten := by
  induction row with
  | nil => rfl
  | cons q rest ih =>
    obtain ⟨hq, hrest⟩ := List.forall_mem_cons.1 hfit
    have hr := ih hrest
    cases he : q.1.emptyLiteral with
    | true => simpa [solid, he, (hq.empty.1 he).2] using hr
    | false => simpa [solid, he] using hr

/-- **What a group keeps of children in a row partitions it,** if the row
alternates and not all of it is left out. -/
theorem partitions_of_row (kind : K) (parent : Option Nat) (stream : Span) {b : Nat} {covered : Text}
    (hab : Abut stream.start (row.map Prod.fst) b)
    (hcovers : Span.Covers t.source ⟨stream.start, b⟩ covered)
    (hcovered : (row.map fun q => t.text q.2).flatten = covered)
    (halt : (row.map Prod.snd).IsChain Token.Alternate) (hne : solid row ≠ []) :
    t.Partitions (Course.group kind parent stream (row.map Prod.fst)).token
      ((solid row).map Prod.snd) := by
  rw [Course.token_group kind parent hab]
  refine ⟨children_of_row hfit, by simpa using hne, ?_, ?_,
    ⟨stream.start, b, rfl, adjacent_of_row hfit hab⟩, ?_⟩
  · intro p hp
    obtain ⟨q, hq, rfl⟩ := List.mem_map.1 hp
    obtain ⟨hmem, he⟩ := List.mem_filter.1 hq
    exact (hfit q hmem).plain (by simpa using he)
  · rw [List.isChain_map] at halt ⊢
    refine isChain_filter (fun q : Child × Token K => q.2.isLiteral) _ ?_ halt
    intro q hq he
    exact ((hfit q hq).empty.1 (by simpa using he)).1
  · rw [List.map_map]
    exact (texts_of_row hfit).trans (hcovered.trans hcovers.slice_eq.symm)

end Row

/-! ## The groups of a tree -/

namespace TokenTree

variable {o : Outline K}

/-- A site with its token, as a group takes it in. -/
def withToken (l : Layout K) (site : Site K) : Child × Token K := (site.child, (site.own l).token)

/-- A seed with its token, as a group takes it in. -/
def seedWithToken (l : Layout K) (id start next : Nat) (seed : Text) : Child × Token K :=
  (⟨next + 1, Segment.spanAt start seed, seed.isEmpty⟩,
    (Course.seed l.literalKind (some id) (Segment.spanAt start seed)).token)

theorem isLiteral_own (l : Layout K) (site : Site K) :
    (site.own l).token.isLiteral = site.segment.isLiteral := by
  obtain ⟨segment, parent, start, id, next⟩ := site
  cases segment <;> rfl

theorem isGroup_own (l : Layout K) (site : Site K) : (site.own l).token.isGroup = false := by
  obtain ⟨segment, parent, start, id, next⟩ := site
  cases segment <;> rfl

theorem isEmptyLiteral_iff (s : Segment K) :
    s.isEmptyLiteral = true ↔ s.isLiteral = true ∧ s.text = [] := by
  cases s <;> simp [Segment.isEmptyLiteral, Segment.isLiteral]

theorem Drawn.text_own (h : t.Drawn rules o) {site : Site K} (hs : o.Sited site) :
    t.text (site.own (layout rules t.source)).token = site.segment.text ∧
      (site.own (layout rules t.source)).token.span =
        some ⟨site.start, site.start + site.segment.bytes⟩ := by
  obtain ⟨x, y, z, hc, hxyz⟩ := hs.cut (l := layout rules t.source)
  rw [h.text_eq] at hc
  refine ⟨by rw [text_of_cut hc, hxyz], ?_⟩
  rw [hc.span_eq, hxyz, Segment.spanAt, Segment.bytes_text]

theorem Drawn.fits_own (h : t.Drawn rules o) {site : Site K} (hs : o.Sited site) :
    t.Fits site.child (site.own (layout rules t.source)).token := by
  obtain ⟨htext, hspan⟩ := h.text_own hs
  refine ⟨h.getElem?_eq (.own hs), hspan, isGroup_own _ site, ?_⟩
  rw [htext, isLiteral_own]
  exact isEmptyLiteral_iff site.segment

theorem isChain_withToken (l : Layout K) {sites : List (Site K)}
    (h : (sites.map Site.segment).IsChain Segment.Alternate) :
    ((sites.map (withToken l)).map Prod.snd).IsChain Token.Alternate := by
  rw [List.isChain_map] at h
  rw [List.map_map, List.isChain_map]
  refine h.imp ?_
  intro a b hab
  simpa [Token.Alternate, Segment.Alternate, withToken, isLiteral_own] using hab

theorem Drawn.texts_withToken (h : t.Drawn rules o) {sites : List (Site K)}
    (hs : ∀ site ∈ sites, o.Sited site) :
    ((sites.map (withToken (layout rules t.source))).map fun q => t.text q.2).flatten =
      Segment.texts (sites.map Site.segment) := by
  induction sites with
  | nil => rfl
  | cons site rest ih =>
    obtain ⟨hsite, hrest⟩ := List.forall_mem_cons.1 hs
    simp only [List.map_cons, List.flatten_cons, Segment.texts_cons]
    rw [ih hrest, withToken, (h.text_own hsite).1]

theorem map_fst_withToken (l : Layout K) (sites : List (Site K)) :
    (sites.map (withToken l)).map Prod.fst = sites.map Site.child := by
  rw [List.map_map]
  rfl

theorem Drawn.fits_withToken (h : t.Drawn rules o) {sites : List (Site K)}
    (hs : ∀ site ∈ sites, o.Sited site) :
    ∀ q ∈ sites.map (withToken (layout rules t.source)), t.Fits q.1 q.2 := by
  intro q hq
  obtain ⟨site, hmem, rfl⟩ := List.mem_map.1 hq
  exact h.fits_own (hs site hmem)

section Nest

variable {tag : Tag K} {seed closing : Text} {first : Segment K} {siblings : List (Segment K)}
  {parent : Option Nat} {start id next : Nat}

/-- The seed of a tag is a literal in front of its parts. -/
theorem Drawn.fits_seed (h : t.Drawn rules o)
    (hs : o.Sited ⟨.nest tag seed first siblings closing, parent, start, id, next⟩)
    {q : Child × Token K}
    (hq : q = seedWithToken (layout rules t.source) id (start + Text.bytes tag.opening) next seed) :
    t.Fits q.1 q.2 ∧ t.text q.2 = seed := by
  have hc := hs.covers_nest
  rw [List.append_assoc, h.text_eq] at hc
  have htext : t.text q.2 = seed := hq ▸ (Span.Covers.split _ hc).1.slice_eq
  refine ⟨⟨?_, ?_, ?_, ?_⟩, htext⟩
  · rw [hq]; exact h.getElem?_eq (.seed hs)
  · rw [hq]; rfl
  · rw [hq]; rfl
  · rw [htext, hq]
    simp [seedWithToken, Course.token, Token.literal, Token.unopened, Token.isLiteral]

/-- The parts of a tag alternate, and the first of them is a tag. -/
theorem Drawn.alternates_parts (h : t.Drawn rules o)
    (hs : o.Sited ⟨.nest tag seed first siblings closing, parent, start, id, next⟩) :
    (first :: siblings).IsChain Segment.Alternate ∧ first.isLiteral = false := by
  obtain ⟨closes, _, text, rest, -, -, hr⟩ := hs.read h.read
  cases hr with
  | tag _ ht =>
    cases ht with
    | nest _ hf hl => exact ⟨isChain_cons_of_not_literal hf.isLiteral_eq hl.alternates, hf.isLiteral_eq⟩

/-- **The group inside a tag is partitioned by its seed and its parts.** -/
theorem Drawn.partitions_nest (h : t.Drawn rules o)
    (hs : o.Sited ⟨.nest tag seed first siblings closing, parent, start, id, next⟩) (kind : K)
    (stop : Nat) :
    ∃ parts, t.Partitions (Course.group kind (some id) ⟨start + Text.bytes tag.opening, stop⟩
      (⟨next + 1, Segment.spanAt (start + Text.bytes tag.opening) seed, seed.isEmpty⟩ ::
        (Site.parts ⟨.nest tag seed first siblings closing, parent, start, id, next⟩).map
          Site.child)).token parts := by
  obtain ⟨hchain, hfirst⟩ := h.alternates_parts hs
  have hsited : ∀ site ∈ Site.parts ⟨.nest tag seed first siblings closing, parent, start, id, next⟩,
      o.Sited site := fun _ => .part hs
  have hsegments : (Site.parts ⟨.nest tag seed first siblings closing, parent, start, id, next⟩).map
      Site.segment = first :: siblings := by
    rw [Site.parts, List.map_cons, Site.map_segment_row]
  have hab := Site.abut_nest tag seed closing first siblings parent start id next
  have hcovers := hs.covers_nest
  rw [h.text_eq] at hcovers
  obtain ⟨q, hq⟩ : ∃ q, q = seedWithToken (layout rules t.source) id
    (start + Text.bytes tag.opening) next seed := ⟨_, rfl⟩
  obtain ⟨hseed, htext⟩ := h.fits_seed hs hq
  have hfst : (q :: (Site.parts ⟨.nest tag seed first siblings closing, parent, start, id, next⟩).map
      (withToken (layout rules t.source))).map Prod.fst =
      ⟨next + 1, Segment.spanAt (start + Text.bytes tag.opening) seed, seed.isEmpty⟩ ::
        (Site.parts ⟨.nest tag seed first siblings closing, parent, start, id, next⟩).map
          Site.child := by
    rw [List.map_cons, map_fst_withToken, hq]
    rfl
  rw [← hfst] at hab ⊢
  refine ⟨_, partitions_of_row (List.forall_mem_cons.2 ⟨hseed, h.fits_withToken hsited⟩) kind
    (some id) ⟨start + Text.bytes tag.opening, stop⟩ hab hcovers ?_ ?_ ?_⟩
  · rw [List.map_cons, List.flatten_cons, h.texts_withToken hsited, hsegments, htext,
      Segment.texts_cons, List.append_assoc]
  · refine List.IsChain.cons_cons ?_ (isChain_withToken _ (hsegments ▸ hchain))
    simp [Token.Alternate, withToken, isLiteral_own, hfirst]
  · -- the first part is a tag, so it is not left out
    have hkept : first.isEmptyLiteral = false := Segment.isEmptyLiteral_of_not_literal hfirst
    intro hnil
    refine List.filter_eq_nil_iff.1 hnil _ (List.mem_cons_of_mem _ List.mem_cons_self) ?_
    simp [withToken, Site.child, hkept]

end Nest

/-- **The group at the root is partitioned by the segments of the source,** of
which at least two are not left out. -/
theorem Drawn.partitions_root (h : t.Drawn rules o) {first second : Segment K}
    {more : List (Segment K)} (ho : o = .series first second more) (kind : K) (stop : Nat) :
    ∃ parts, t.Partitions (Course.group kind none ⟨0, stop⟩ (o.sites.map Site.child)).token parts ∧
      2 ≤ parts.length := by
  have hsited : ∀ site ∈ o.sites, o.Sited site := fun _ => .top
  have hread := h.read
  subst ho
  cases hread with
  | @series _ _ mid after _ h1 hmid h2 hl =>
    have hne : t.source ≠ [] := by
      intro hnil
      have htext := h1.text_eq
      rw [hnil] at htext
      exact hmid (List.append_eq_nil_iff.1 htext).2
    have hchain := (h.read.level hne).alternates
    rw [← Outline.map_segment_sites] at hchain
    -- neither of the first two segments is empty
    have hk1 := h1.not_empty hne
    have hk2 := h2.not_empty hmid
    have hsolid : 2 ≤ (solid ((Outline.sites (.series first second more)).map
        (withToken (layout rules t.source)))).length := by
      simp [solid, Outline.sites, Site.row, withToken, Site.child, hk1, hk2]
    refine ⟨(solid ((Outline.sites (.series first second more)).map
      (withToken (layout rules t.source)))).map Prod.snd, ?_, by rwa [List.length_map]⟩
    have hab := Outline.abut_sites (.series first second more)
    rw [← map_fst_withToken (layout rules t.source), h.text_eq] at hab
    rw [← map_fst_withToken (layout rules t.source)]
    have hcovers : Span.Covers t.source ⟨0, Text.bytes t.source⟩ t.source :=
      ⟨[], [], by simp, by simp [Segment.spanAt]⟩
    refine partitions_of_row (h.fits_withToken hsited) kind none ⟨0, stop⟩ hab hcovers ?_
      (isChain_withToken _ hchain) ?_
    · rw [h.texts_withToken hsited, Outline.map_segment_sites]
      exact h.text_eq
    · intro hnil
      rw [hnil] at hsolid
      exact absurd hsolid (by simp)

/-- The root of a tree is no group inside a tag. -/
theorem Drawn.ne_root (h : t.Drawn rules o) {i id : Nat} {kind : K} {stream : Span}
    {children : List Child}
    (hc : o.Stands (layout rules t.source) i (.group kind (some id) stream children)) :
    i ≠ t.root := by
  intro hi
  rw [hi, h.root] at hc
  have hroot := hc.getElem?_eq
  cases o with
  | single s => cases s <;> cases hroot
  | series first second more => rw [(Outline.Stands.root rfl).getElem?_eq] at hroot; cases hroot

/-- **Every group of a tree is partitioned,** the one at the root by at least two
tokens. -/
theorem Drawn.exists_partitions (h : t.Drawn rules o) {i : Nat} {c : Course K}
    (hc : o.Stands (layout rules t.source) i c) (hg : c.token.isGroup = true) :
    ∃ parts, t.Partitions c.token parts ∧ (i = t.root → 2 ≤ parts.length) := by
  cases hc with
  | own hs => rw [isGroup_own] at hg; cases hg
  | seed hs => cases hg
  | group hs =>
    obtain ⟨parts, hp⟩ := h.partitions_nest hs (layout rules t.source).groupKind
      (layout rules t.source).stop
    exact ⟨parts, hp, fun hi => absurd hi (h.ne_root (.group hs))⟩
  | root ho =>
    obtain ⟨parts, hp, hlen⟩ := h.partitions_root ho (layout rules t.source).groupKind
      (layout rules t.source).stop
    exact ⟨parts, hp, fun _ => hlen⟩

end TokenTree

section

variable [DecidableEq K] [Taxonomy K] {rules : Ruleset K} {limits : Limits} {source : Text}
  {t : TokenTree K}

/-- **The groups of a scanned tree are partitions.** The children of a group are
tags and non-empty literals that stand in a row from where it starts to where it
stops, and no two literals follow each other. A group at the root has at least two
children, and they make up the source. -/
theorem scan_partitions (h : TokenTree.scan rules limits source = .ok t) {i : Nat} {group : Token K}
    (hi : t.tokens[i]? = some group) (hg : group.isGroup = true) :
    ∃ parts, t.Partitions group parts ∧
      (i = t.root → 2 ≤ parts.length ∧ (parts.map t.text).flatten = source) := by
  obtain ⟨hsource, o, hdrawn⟩ := TokenTree.scan_drawn h
  obtain ⟨c, hc, rfl⟩ := hdrawn.token_stands hi
  obtain ⟨parts, hp, hlen⟩ := hdrawn.exists_partitions hc hg
  refine ⟨parts, hp, fun hroot => ⟨hlen hroot, ?_⟩⟩
  have hrootToken := hdrawn.rootToken_eq (c := c) (by rwa [← hdrawn.root, ← hroot])
  rw [hp.text_eq, ← hrootToken, hdrawn.text_root, hsource]

end

theorem scan_partitions_sample : ∃ t group,
    TokenTree.scan Template.rules .default Template.sample = .ok t ∧
      t.tokens[t.root]? = some group ∧ group.isGroup = true ∧
      ∃ parts, t.Partitions group parts ∧
        (t.root = t.root → 2 ≤ parts.length ∧ (parts.map t.text).flatten = Template.sample) := by
  obtain ⟨t, ht, hroot⟩ := Template.scan_sample
  obtain ⟨group, hi, hg⟩ := (Option.any_eq_true _ _).1 hroot
  exact ⟨t, group, ht, hi, hg, scan_partitions ht hi hg⟩

end Bracketry
