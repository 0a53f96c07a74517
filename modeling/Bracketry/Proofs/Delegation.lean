import Bracketry.Proofs.Subtree

/-!
# What a tag delegates

Where another tag opens inside a tag, the rest of the content is delegated to a level one deeper.
The tag is closed from outside: it ends with the group of the level, and its close delimiter is
the one that the last literal of the level ran into. The literal may be empty, and so may the
plain text in front of the first tag; the group leaves them out.

* `LevelRead.ends_in_literal`: a level ends in the literal that swallows the close delimiter.
* `Outline.Sited.eq_of_id`: sites are told apart by their numbers.
* `TokenTree.Drawn.within`: what stands on the level inside a tag stands directly in its site.
* `scan_delegates`: **a tag has a level if it encloses anything, and then the level covers just
  the content of the tag and stops at its close delimiter.**
-/

namespace Bracketry

variable {K : Type} {rules : Ruleset K}

open Segment (spanAt)

/-! ## The last segment of a level -/

/-- **A level that ends in a close delimiter ends in the literal that swallows it.** -/
theorem LevelRead.ends_in_literal {closes : Text → Option Nat} {text closing rest : Text}
    {segments : List (Segment K)}
    (h : LevelRead rules closes text segments (some closing) rest) :
    ∃ before plain, segments = before ++ [.literal plain (some closing)] := by
  induction segments generalizing text with
  | nil => cases h
  | cons s segments ih =>
    cases h with
    | swallows _ _ _ => exact ⟨[], _, rfl⟩
    | literal _ _ _ hl =>
      obtain ⟨before, plain, rfl⟩ := ih hl
      exact ⟨_ :: before, plain, rfl⟩
    | tag _ _ _ hl =>
      obtain ⟨before, plain, rfl⟩ := ih hl
      exact ⟨_ :: before, plain, rfl⟩

theorem Segment.total_append (before after : List (Segment K)) :
    bytes.total (before ++ after) = bytes.total before + bytes.total after := by
  induction before with
  | nil => simp [bytes.total]
  | cons s before ih => rw [List.cons_append, bytes.total, bytes.total, ih, Nat.add_assoc]

/-- What a group takes in last it keeps last, unless it is an empty literal. -/
theorem kept_concat {children : List Child} {c : Child} (h : c.emptyLiteral = false) :
    kept (children ++ [c]) = kept children ++ [c.id] := by
  simp [kept, h]

/-! ## Sites and their numbers -/

namespace Site

theorem row_append (parent : Option Nat) (start next : Nat) (before after : List (Segment K)) :
    row parent start next (before ++ after) =
      row parent start next before ++
        row parent (start + Segment.bytes.total before) (next + Segment.count.counts before)
          after := by
  induction before generalizing start next with
  | nil => rfl
  | cons s before ih =>
    rw [List.cons_append, row, row, ih, Segment.bytes.total, Segment.count.counts, List.cons_append,
      Nat.add_assoc, Nat.add_assoc]

/-- Sites in a row start where the row does, or later. -/
theorem start_le_of_mem_row {parent : Option Nat} {start next : Nat} {segments : List (Segment K)}
    {site : Site K} (h : site ∈ row parent start next segments) : start ≤ site.start := by
  induction segments generalizing start next with
  | nil => cases h
  | cons s rest ih =>
    rcases List.mem_cons.1 h with rfl | h
    · exact Nat.le_refl _
    · exact Nat.le_trans (Nat.le_add_right _ _) (ih h)

/-- The parts of a site have different numbers. -/
theorem nodup_id_parts (outer : Site K) : (outer.parts.map Site.id).Nodup := by
  obtain ⟨segment, parent, start, id, next⟩ := outer
  cases segment with
  | literal _ _ => exact List.nodup_nil
  | tag _ _ _ => exact List.nodup_nil
  | nest tag seed first siblings closing =>
    exact (List.nodup_cons.1 (nodup_parts tag seed closing first siblings parent start id next)).2

end Site

namespace Outline

variable {o : Outline K} {l : Layout K}

/-- Sites of one number are enclosed by the same tag. -/
theorem Sited.parent_eq (l : Layout K) {site site' : Site K} (h : o.Sited site) (h' : o.Sited site')
    (hid : site.id = site'.id) : site.parent = site'.parent := by
  have hown := (h.placed (l := l)).own
  have hown' := (h'.placed (l := l)).own
  rw [hid, hown'] at hown
  rw [← Site.parent_own l site, ← Site.parent_own l site', Option.some.inj hown]

/-- **Sites are told apart by their numbers.** -/
theorem Sited.eq_of_id (l : Layout K) {site site' : Site K} (h : o.Sited site) (h' : o.Sited site')
    (hid : site.id = site'.id) : site = site' := by
  induction h generalizing site' with
  | @top site hmem =>
    have hparent := Sited.parent_eq l (.top hmem) h' hid
    cases h' with
    | top hmem' => exact List.inj_on_of_nodup_map o.nodup_sites hmem hmem' hid
    | part _ hmem' =>
      rw [parent_top hmem, Site.parent_part hmem'] at hparent
      cases hparent
  | @part outer site houter hmem ih =>
    have hparent := Sited.parent_eq l (.part houter hmem) h' hid
    rw [Site.parent_part hmem] at hparent
    cases h' with
    | top hmem' =>
      rw [parent_top hmem'] at hparent
      cases hparent
    | part houter' hmem' =>
      -- the tags around the sites have one number, so they are one
      rw [Site.parent_part hmem'] at hparent
      obtain rfl := ih houter' (Option.some.inj hparent)
      exact List.inj_on_of_nodup_map outer.nodup_id_parts hmem hmem' hid

end Outline

/-! ## The level inside a tag -/

namespace TokenTree

/-- A token stands on the level inside a tag: the tag encloses it, and no tag in between does. -/
structure Inside (t : TokenTree K) (i j : Nat) (token : Token K) : Prop where
  stands : t.tokens[j]? = some token
  parent : token.parent = some i

/-- A tag is the first on the level inside another one. It was admitted before everything else
there, and no other tag there starts before it. -/
structure Leads (t : TokenTree K) (i f start : Nat) (nested : Token K) : Prop where
  inside : t.Inside i f nested
  variant : ∃ rule, nested.variant = .tag rule
  span : ∃ stop, nested.span = some ⟨start, stop⟩
  earliest : ∀ j other, t.Inside i j other → f ≤ j
  ahead : ∀ j other, t.Inside i j other → (∃ rule, other.variant = .tag rule) →
    ∃ span, other.span = some span ∧ start ≤ span.start

/-- A group stands for the level inside a tag: it covers the content of the tag, and the tag
encloses its children. -/
structure Collects (t : TokenTree K) (i g : Nat) (token group : Token K) : Prop where
  inside : t.Inside i g group
  isGroup : group.isGroup = true
  span : ∃ span, group.span = some span ∧ token.content = some span
  children : ∀ j ∈ group.children, ∃ child, t.Inside i j child

/-- The last token of the level inside a tag is a literal that runs into the close delimiter of
the tag. It is the last child of the group, or it is empty and left out. -/
structure RunsInto (t : TokenTree K) (i m : Nat) (closing : Span) (group last : Token K) : Prop where
  inside : t.Inside i m last
  latest : ∀ j other, t.Inside i j other → j ≤ m
  variant : last.variant = .literal (some closing)
  span : ∃ start, last.span = some ⟨start, closing.start⟩
  kept : t.text last ≠ [] → group.children.getLast? = some m
  dropped : t.text last = [] → m ∉ group.children

/-- A tag delegated its content to a level, and the level came back with its close delimiter. -/
structure Delegated (t : TokenTree K) (i : Nat) (token : Token K) (level : Level) : Prop where
  starts : ∃ f nested, t.Leads i f level.stream.start nested
  stops : ∃ g group m last closing, level.token = some g ∧ level.swallowed = some closing ∧
    token.closing = some closing ∧ t.Collects i g token group ∧ t.RunsInto i m closing group last

variable {t : TokenTree K} {o : Outline K}

/-- What stands on the level inside a tag stands directly in the site of the tag. -/
theorem Drawn.within (h : t.Drawn rules o) {site : Site K} (hs : o.Sited site) {j : Nat}
    {other : Token K} (hj : t.Inside site.id j other) :
    ∃ c, site.Within (layout rules t.source) j c ∧ other = c.token := by
  obtain ⟨c, hc, rfl⟩ := h.token_stands hj.stands
  obtain ⟨outer, houter, hid, hwithin⟩ := hc.within hj.parent
  obtain rfl := hs.eq_of_id (layout rules t.source) houter hid.symm
  exact ⟨c, hwithin, rfl⟩

/-- A part of a site stands on the level inside it. -/
theorem Drawn.inside_part (h : t.Drawn rules o) {outer site : Site K} (hs : o.Sited outer)
    (hmem : site ∈ outer.parts) :
    t.Inside outer.id site.id (site.own (layout rules t.source)).token :=
  ⟨h.getElem?_eq (.own (.part hs hmem)), (Site.parent_own _ site).trans (Site.parent_part hmem)⟩

section Nest

variable {tag : Tag K} {seed closing : Text} {first : Segment K} {siblings : List (Segment K)}
  {parent : Option Nat} {start id next : Nat}

/-- The parts of a tag are numbered from the first of them on, and none starts before it. -/
theorem bounds_of_mem_parts {site : Site K}
    (h : site ∈ Site.parts ⟨.nest tag seed first siblings closing, parent, start, id, next⟩) :
    next ≤ site.id ∧ start + Text.bytes tag.opening + Text.bytes seed ≤ site.start := by
  rcases List.mem_cons.1 h with rfl | h
  · exact ⟨Nat.le_refl _, Nat.le_refl _⟩
  · have hid := (Site.of_mem_row h).2.1
    have hstart := Site.start_le_of_mem_row h
    dsimp only at hid hstart
    omega

/-- **The level inside a tag starts at its first tag.** -/
theorem Drawn.leads (h : t.Drawn rules o)
    (hs : o.Sited ⟨.nest tag seed first siblings closing, parent, start, id, next⟩) :
    ∃ nested, t.Leads id next (start + Text.bytes tag.opening + Text.bytes seed) nested := by
  obtain ⟨closes, hread⟩ := hs.read h.read
  obtain ⟨before, mid, after, rest, inner, hnest⟩ := hread.nest
  have hliteral : first.isLiteral = false := by
    cases hnest.first <;> rfl
  have hmem : ⟨first, some id, start + Text.bytes tag.opening + Text.bytes seed, next, next + 3⟩ ∈
      Site.parts ⟨.nest tag seed first siblings closing, parent, start, id, next⟩ :=
    List.mem_cons_self
  refine ⟨_, h.inside_part hs hmem, variant_own _ hliteral, ⟨_, (h.text_own (.part hs hmem)).2⟩,
    ?_, ?_⟩
  · intro j other hj
    obtain ⟨c, hwithin, -⟩ := h.within hs hj
    cases hwithin with
    | part hmem => exact (bounds_of_mem_parts hmem).1
    | seed => exact Nat.le_add_right _ _
    | group => exact Nat.le_add_right _ _
  · rintro j other hj ⟨rule, hv⟩
    obtain ⟨c, hwithin, rfl⟩ := h.within hs hj
    cases hwithin with
    | part hmem => exact ⟨_, (h.text_own (.part hs hmem)).2, (bounds_of_mem_parts hmem).2⟩
    | seed => cases hv
    | group =>
      have hab := Site.abut_nest tag seed closing first siblings parent start id next
      rw [Course.token_group _ _ hab] at hv
      cases hv

/-- The parts of a tag end in the literal that swallows its close delimiter, which stands where the
content of the tag ends. It is admitted after the others, the seed and the group. -/
theorem Drawn.exists_last_part (h : t.Drawn rules o)
    (hs : o.Sited ⟨.nest tag seed first siblings closing, parent, start, id, next⟩) :
    ∃ sites site plain,
      Site.parts ⟨.nest tag seed first siblings closing, parent, start, id, next⟩ = sites ++ [site] ∧
      site.segment = .literal plain (some closing) ∧
      site.start + Text.bytes plain =
        start + Text.bytes tag.opening +
          (Text.bytes seed + first.bytes + Segment.bytes.total siblings) ∧
      next + 2 < site.id ∧ ∀ other ∈ sites, other.id < site.id := by
  obtain ⟨closes, hread⟩ := hs.read h.read
  obtain ⟨before, mid, after, rest, inner, hnest⟩ := hread.nest
  obtain ⟨others, plain, rfl⟩ := hnest.siblings.ends_in_literal
  have hcount := first.count_pos
  have hrow := (Site.nodup_row (some id)
    (start + Text.bytes tag.opening + Text.bytes seed + first.bytes) (next + 2 + first.count) others).2
  refine ⟨⟨first, some id, start + Text.bytes tag.opening + Text.bytes seed, next, next + 3⟩ ::
      Site.row (some id) (start + Text.bytes tag.opening + Text.bytes seed + first.bytes)
        (next + 2 + first.count) others,
    ⟨.literal plain (some closing), some id,
      start + Text.bytes tag.opening + Text.bytes seed + first.bytes + Segment.bytes.total others,
      next + 2 + first.count + Segment.count.counts others,
      next + 2 + first.count + Segment.count.counts others + 1⟩, plain, ?_, rfl, ?_, ?_, ?_⟩
  · simp only [Site.parts]
    rw [Site.row_append]
    rfl
  · rw [Segment.total_append]
    simp only [Segment.bytes.total, Segment.bytes]
    omega
  · dsimp only
    omega
  · intro other hother
    rcases List.mem_cons.1 hother with rfl | hother
    · dsimp only
      omega
    · exact (hrow other hother).2

/-- **The group of a level covers the content of the tag.** Its children are those of the tag. -/
theorem Drawn.collects (h : t.Drawn rules o)
    (hs : o.Sited ⟨.nest tag seed first siblings closing, parent, start, id, next⟩)
    {token : Token K} (hi : t.tokens[id]? = some token) :
    ∃ group, t.Collects id (next + 2) token group ∧ group.children = NodeTree.project t id := by
  have htoken := h.getElem?_eq (.own hs)
  rw [hi] at htoken
  have hg := h.getElem?_eq (.group hs)
  have hab := Site.abut_nest tag seed closing first siblings parent start id next
  rw [Course.token_group _ _ hab] at hg
  refine ⟨_, ⟨⟨hg, rfl⟩, rfl, ?_, ?_⟩, (h.project_nest hs).symm⟩
  · have hw : (Site.mk (.nest tag seed first siblings closing) parent start id next).segment.Wraps tag
        (seed ++ first.text ++ Segment.texts siblings) closing := .nest tag seed first siblings closing
    rw [Option.some.inj htoken]
    exact ⟨_, rfl, (hw.tokenAt _).content⟩
  · intro j hj
    obtain ⟨child, hchild, -, hparent⟩ := h.token_kept hs hj
    exact ⟨child, hchild, hparent⟩

/-- **The last literal of a level runs into the close delimiter of the tag.** -/
theorem Drawn.runsInto (h : t.Drawn rules o)
    (hs : o.Sited ⟨.nest tag seed first siblings closing, parent, start, id, next⟩)
    {group : Token K} (hchildren : group.children = NodeTree.project t id) :
    ∃ m last, t.RunsInto id m (spanAt (start + Text.bytes tag.opening + (Text.bytes seed +
      first.bytes + Segment.bytes.total siblings)) closing) group last := by
  obtain ⟨sites, site, plain, hparts, hsegment, hstop, hid, hless⟩ := h.exists_last_part hs
  have hmem : site ∈ Site.parts
      ⟨.nest tag seed first siblings closing, parent, start, id, next⟩ := by
    rw [hparts]
    simp
  obtain ⟨htext, hspan⟩ := h.text_own (.part hs hmem)
  have hempty : site.child.emptyLiteral = plain.isEmpty := by
    rw [Site.child, hsegment]
    rfl
  rw [hsegment, Segment.text_literal] at htext
  refine ⟨site.id, _, h.inside_part hs hmem, ?_, ?_, ?_, ?_, ?_⟩
  · intro j other hj
    obtain ⟨c, hwithin, -⟩ := h.within hs hj
    -- the seed and the group are admitted with the first tag, so before the last part
    cases hwithin with
    | @part _ other hother =>
      rw [hparts] at hother
      rcases List.mem_append.1 hother with hother | hother
      · exact (hless other hother).le
      · rw [List.mem_singleton.1 hother]
    | seed => omega
    | group => omega
  · rw [Site.own, hsegment, ← hstop]
    rfl
  · refine ⟨site.start, ?_⟩
    rw [hspan, hsegment, ← hstop]
    rfl
  · intro hne
    rw [htext] at hne
    have hplain : site.child.emptyLiteral = false := by
      rw [hempty]
      simpa using hne
    rw [hchildren, h.project_nest hs, hparts, List.map_append, ← List.cons_append, List.map_singleton,
      kept_concat hplain]
    exact List.getLast?_concat
  · intro hnil hchild
    rw [hchildren] at hchild
    obtain ⟨child, hsome, hproper⟩ := h.proper_child (h.getElem?_eq (.own hs)) hchild
    rw [(h.inside_part hs hmem).stands] at hsome
    cases hsome
    have hliteral := isLiteral_own (layout rules t.source) site
    rw [hsegment] at hliteral
    exact hproper.text hliteral hnil

end Nest

end TokenTree

section

variable [DecidableEq K] [Taxonomy K] {limits : Limits} {source : Text} {t : TokenTree K}

/-- **A tag delegates exactly its content.** It has a level if it encloses anything, and then the
level starts at the first tag inside, its group covers the content of the tag, and its last
literal runs into the close delimiter that the tag is closed with. -/
theorem scan_delegates (h : TokenTree.scan rules limits source = .ok t) {i rule : Nat}
    {token : Token K} (hi : t.tokens[i]? = some token) (hv : token.variant = .tag rule) :
    (token.level.isSome = true ↔ ∃ j other, t.Inside i j other) ∧
      ∀ level, token.level = some level → t.Delegated i token level := by
  obtain ⟨-, o, hd⟩ := TokenTree.scan_drawn h
  obtain ⟨site, hs, rfl, rfl, hliteral⟩ := hd.exists_site hi hv
  obtain ⟨segment, parent, start, id, next⟩ := site
  cases segment with
  | literal _ _ => cases hliteral
  | tag tag content closing =>
    refine ⟨iff_of_false (by simp [Site.own, Segment.own, Course.token]) ?_, fun _ hl => nomatch hl⟩
    rintro ⟨j, other, hj⟩
    obtain ⟨c, hwithin, -⟩ := hd.within hs hj
    cases hwithin with
    | part hmem => cases hmem
  | nest tag seed first siblings closing =>
    obtain ⟨nested, hleads⟩ := hd.leads hs
    obtain ⟨group, hcollects, hchildren⟩ := hd.collects hs hi
    obtain ⟨m, last, hruns⟩ := hd.runsInto hs hchildren
    refine ⟨iff_of_true rfl ⟨next, nested, hleads.inside⟩, ?_⟩
    intro level hlevel
    cases hlevel
    exact ⟨⟨next, nested, hleads⟩, next + 2, group, m, last, _, rfl, rfl, rfl, hcollects, hruns⟩

end

/-- The optional section of the sample holds a variable and ends right behind it. -/
theorem scan_delegates_sample : ∃ t token level,
    TokenTree.scan Template.rules .default Template.sample = .ok t ∧ t.tokens[1]? = some token ∧
      token.variant = .tag 2 ∧ token.level = some level ∧ level.token = some 4 ∧
        (∃ j other, t.Inside 1 j other) ∧ t.Delegated 1 token level := by
  obtain ⟨t, ht, htest⟩ : ∃ t, TokenTree.scan Template.rules .default Template.sample = .ok t ∧
      (t.tokens[1]?).any (fun token => token.variant == .tag 2 &&
        token.level.any fun level => level.token == some 4) = true :=
    TokenTree.exists_ok_of_any (by cbv)
  obtain ⟨token, htoken, htest⟩ := (Option.any_eq_true _ _).1 htest
  obtain ⟨hvariant, hlevel⟩ := Bool.and_eq_true_iff.1 htest
  have hvariant : token.variant = .tag 2 := beq_iff_eq.1 hvariant
  obtain ⟨level, hlevel, hgroup⟩ := (Option.any_eq_true _ _).1 hlevel
  obtain ⟨hinside, hdelegated⟩ := scan_delegates ht htoken hvariant
  exact ⟨t, token, level, ht, htoken, hvariant, hlevel, beq_iff_eq.1 hgroup,
    hinside.1 (by rw [hlevel]; rfl), hdelegated level hlevel⟩

end Bracketry
