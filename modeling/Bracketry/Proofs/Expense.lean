import Bracketry.Proofs.Budget

/-!
# What the tags of a source take

The depth and the tokens that a scan takes are those of what it reads, or of what it reads up
to a tag that the end of the text leaves open. Where no rule opens a tag at the end, they are
bounded by the source: every tag has an open delimiter that pays for it, for a seed, for a
group and for the empty literal that may end its level.

* `OutlineRead.needs`, `OutlineOpen.exists_needs`: **what a scan takes does not depend on its
  bounds.**
* `TagRead.small`, `LevelRead.small`: what is read has no more than four tokens for each byte.
-/

namespace Bracketry

variable {K : Type} {rules : Ruleset K}

namespace Outline

/-- How deep the tags of a source are nested. -/
def nesting (o : Outline K) : Nat := Segment.nesting.deepest o.segments

/-- The number of tokens of a source. -/
def count : Outline K → Nat
  | .single s => s.count
  | .series first second more => first.count + second.count + 1 + Segment.count.counts more

theorem length_courses (l : Layout K) (o : Outline K) : (o.courses l).length = o.count := by
  cases o with
  | single s => simp [courses, count, Segment.length_row, Segment.count.counts]
  | series first second more =>
    simp only [courses, count, List.length_append, List.length_cons, Segment.length_row,
      Segment.count.counts]
    omega

end Outline

/-! ## What is read is small -/

/-- A tag that opens where something is left has an open delimiter. -/
theorem Opening.bytes_pos (o : Opening K) {text : Text} (hne : text ≠ []) :
    0 < Text.bytes (o.tag text).opening := by
  apply Text.bytes_pos
  obtain ⟨n, hn⟩ := Nat.exists_eq_succ_of_ne_zero (Nat.pos_iff_ne_zero.1 o.positive)
  cases text with
  | nil => exact absurd rfl hne
  | cons c r =>
    rw [Opening.tag, hn]
    exact List.cons_ne_nil _ _

/-- What is read ends where the rest begins. -/
theorem TagRead.bytes_eq {o : Opening K} {text rest : Text} {s : Segment K}
    (h : TagRead rules o text s rest) : Text.bytes text = s.bytes + Text.bytes rest := by
  rw [← h.text_eq, Text.bytes_append, Segment.bytes_text]

theorem SegmentRead.bytes_eq {closes : Text → Option Nat} {text rest : Text} {s : Segment K}
    (h : SegmentRead rules closes text s rest) (hsw : s.swallowed = none) :
    Text.bytes text = s.bytes + Text.bytes rest := by
  rw [← h.text_eq, hsw, Text.bytes_append, Text.bytes_append, Segment.bytes_text]
  rfl

/-- A tag opens where something is left, unless a rule opens one at the end. -/
theorem ne_nil_of_opening (hnil : rules.opening? [] = none) {text : Text} {o : Opening K}
    (h : rules.opening? text = some o) : text ≠ [] := by
  rintro rfl
  rw [hnil] at h
  cases h

/-- A literal that swallows nothing is not empty. -/
theorem bytes_pos_of_boundary {closes : Text → Option Nat} {text plain mid : Text} (hne : text ≠ [])
    (ho : rules.opening? text = none) (hs : rules.literalStop closes text = .boundary plain mid) :
    0 < Text.bytes plain := by
  apply Text.bytes_pos
  rintro rfl
  have hlt := Ruleset.length_lt_of_boundary ho hne hs
  rw [← Ruleset.literalStop_boundary hs] at hlt
  exact absurd hlt (Nat.lt_irrefl _)

mutual

/-- **A tag has room in its text** for its nesting and, at four for each byte, for its tokens
and three more. -/
theorem TagRead.small (hnil : rules.opening? [] = none) {o : Opening K} {text rest : Text}
    {s : Segment K} (h : TagRead rules o text s rest) (hne : text ≠ []) :
    s.nesting + 1 ≤ s.bytes ∧ s.count + 3 ≤ 4 * s.bytes := by
  have hopening := o.bytes_pos hne
  cases h with
  | plain hs =>
    simp only [Segment.nesting, Segment.count, Segment.bytes]
    omega
  | nest hs hf hl =>
    have hmid := ne_nil_of_opening hnil (Opening.text_of_opens hs).2
    obtain ⟨hfirst, hfirst'⟩ := hf.small hnil hmid
    obtain ⟨hlevel, hlevel'⟩ := hl.small hnil
    simp only [Option.isSome_some, if_true] at hlevel'
    simp only [Segment.nesting, Segment.count, Segment.bytes]
    omega

/-- A level has room in its text for its nesting and its tokens, but for the empty literal
that may end it. -/
theorem LevelRead.small (hnil : rules.opening? [] = none) {closes : Text → Option Nat}
    {text rest : Text} {segments : List (Segment K)} {closing : Option Text}
    (h : LevelRead rules closes text segments closing rest) :
    Segment.nesting.deepest segments ≤ Segment.bytes.total segments ∧
      Segment.count.counts segments ≤
        4 * Segment.bytes.total segments + if closing.isSome then 1 else 0 := by
  cases h with
  | done => exact ⟨Nat.le_refl _, Nat.le_refl _⟩
  | swallows _ _ _ =>
    simp [Segment.nesting.deepest, Segment.nesting, Segment.count.counts, Segment.count]
  | literal hne ho hs hl =>
    have hplain := bytes_pos_of_boundary hne ho hs
    obtain ⟨hlevel, hlevel'⟩ := hl.small hnil
    simp only [Segment.nesting.deepest, Segment.nesting, Segment.count.counts, Segment.count,
      Segment.bytes.total, Segment.bytes]
    omega
  | tag hne ho ht hl =>
    obtain ⟨htag, htag'⟩ := ht.small hnil hne
    obtain ⟨hlevel, hlevel'⟩ := hl.small hnil
    simp only [Segment.nesting.deepest, Segment.count.counts, Segment.bytes.total]
    omega

end

/-- A level that no close delimiter ends has room in its text. -/
theorem LevelRead.small_of_none (hnil : rules.opening? [] = none) {closes : Text → Option Nat}
    {text rest : Text} {segments : List (Segment K)}
    (h : LevelRead rules closes text segments none rest) :
    Segment.nesting.deepest segments ≤ Text.bytes text ∧
      Segment.count.counts segments ≤ 4 * Text.bytes text := by
  obtain ⟨hd, hm⟩ := h.small hnil
  have hbytes := congrArg Text.bytes h.text_eq
  simp only [Text.bytes_append, Segment.bytes_texts, Option.getD_none, Text.bytes_nil] at hbytes
  simp only [Option.isSome_none, Bool.false_eq_true, if_false] at hm
  omega

/-- A tag with tags inside has room in its text for what its first part takes and for what has
room behind that. -/
theorem TagRead.small_nest (hnil : rules.opening? [] = none) {o inner : Opening K}
    {text seed mid after : Text} {first : Segment K} {deep more : Nat} (hne : text ≠ [])
    (hs : o.stop rules text = .opens seed inner mid) (hf : TagRead rules inner mid first after)
    (hd : deep ≤ Text.bytes after) (hm : more ≤ 4 * Text.bytes after) :
    max first.nesting deep + 1 + 1 ≤ Text.bytes text ∧
      first.count + 2 + more + 4 ≤ 4 * Text.bytes text := by
  obtain ⟨htext, hinner⟩ := Opening.text_of_opens hs
  obtain ⟨hfd, hfm⟩ := hf.small hnil (ne_nil_of_opening hnil hinner)
  have hopening := o.bytes_pos hne
  have hmid := hf.bytes_eq
  have hbytes := congrArg Text.bytes htext
  rw [Text.bytes_append, Text.bytes_append] at hbytes
  omega

/-- A segment that swallows nothing has room in its text. -/
theorem SegmentRead.small (hnil : rules.opening? [] = none) {closes : Text → Option Nat}
    {text rest : Text} {s : Segment K} (h : SegmentRead rules closes text s rest) (hne : text ≠ [])
    (hsw : s.swallowed = none) : s.nesting ≤ s.bytes ∧ s.count ≤ 4 * s.bytes := by
  cases h with
  | swallows _ _ => cases hsw
  | literal ho hs =>
    have hplain := bytes_pos_of_boundary hne ho hs
    simp only [Segment.nesting, Segment.count, Segment.bytes]
    omega
  | tag _ ht =>
    obtain ⟨htag, htag'⟩ := ht.small hnil hne
    omega

/-- A level leaves a tag open in its first segment or behind it. -/
theorem LevelOpen.head_or_tail {closes : Text → Option Nat} {text left : Text} {t : Tag K}
    (h : LevelOpen rules t left closes text) :
    text ≠ [] ∧ ((∃ o, rules.opening? text = some o ∧ TagOpen rules t left o text) ∨
      ∃ s mid, SegmentRead rules closes text s mid ∧ s.swallowed = none ∧
        LevelOpen rules t left closes mid) := by
  cases h with
  | literal hne ho hs hl => exact ⟨hne, .inr ⟨_, _, .literal ho hs, rfl, hl⟩⟩
  | here hne ho ht => exact ⟨hne, .inl ⟨_, ho, ht⟩⟩
  | later hne ho ht hl => exact ⟨hne, .inr ⟨_, _, .tag ho ht, ht.swallowed_eq, hl⟩⟩

/-! ## Reading takes what was read -/

variable [DecidableEq K] [Taxonomy K]

mutual

/-- **Reading a tag takes what is nested in it and the tokens that it counts,** whatever the
bounds. Its own token has been admitted before. -/
theorem TagRead.needs {o : Opening K} {text rest : Text} {s : Segment K}
    (h : TagRead rules o text s rest) {l : Limits} (source : Text) {g : Gauge} {n m : Nat}
    (hroom : l.Room g.depth n) (hm : m + 1 = n + s.count) :
    l.Needs (g.depth + s.nesting) m (.ok ⟨s, rest, m⟩)
      ((Scanner.mk rules l source).tagAt g n o text) := by
  cases h with
  | plain hs =>
    simp only [Segment.count] at hm
    obtain rfl : m = n := by omega
    rw [Scanner.tagAt_of_closed hs]
    exact hroom.needs _
  | @nest _ inner _ seed mid after closing _ first siblings hs hf hl =>
    simp only [Segment.count] at hm
    have hpos := first.count_pos
    have hfirst : l.Room g.enter.depth (n + 3) → _ := fun h =>
      hf.needs source h (m := n + 2 + first.count) (by omega)
    have hlevel : l.Room g.enter.depth (n + 2 + first.count) → _ := fun h =>
      hl.needs source h (m := m) (by omega)
    exact Scanner.needs_tag_level hs hroom (by omega) (by omega) hfirst hlevel

/-- Reading a level takes what is nested in its segments and the tokens that they count. -/
theorem LevelRead.needs {closes : Text → Option Nat} {text rest : Text}
    {segments : List (Segment K)} {closing : Option Text}
    (h : LevelRead rules closes text segments closing rest) {l : Limits} (source : Text) {g : Gauge}
    {n m : Nat} (hroom : l.Room g.depth n) (hm : m = n + Segment.count.counts segments) :
    l.Needs (g.depth + Segment.nesting.deepest segments) m (.ok ⟨segments, closing, rest, m⟩)
      ((Scanner.mk rules l source).levelAt g n closes text) := by
  cases h with
  | done =>
    cases hm
    rw [Scanner.levelAt_nil]
    exact hroom.needs _
  | swallows hne ho hs =>
    cases hm
    exact Scanner.needs_last hne rfl (Scanner.needs_literal source (.swallows ho hs) hroom)
  | literal hne ho hs hl =>
    simp only [Segment.count.counts, Segment.count] at hm
    have hrest : l.Room g.depth (n + 1) → _ := fun h => hl.needs source h (m := m) (by omega)
    exact Scanner.needs_level hne rfl (by omega)
      (Scanner.needs_literal source (.literal ho hs) hroom) hrest
  | @tag _ _ mid _ o s segments _ hne ho ht hl =>
    simp only [Segment.count.counts] at hm
    have hpos := s.count_pos
    have htag : l.Room g.depth (n + 1) → _ := fun h =>
      ht.needs source h (m := n + s.count) (by omega)
    have hrest : l.Room g.depth (n + s.count) → _ := fun h => hl.needs source h (m := m) (by omega)
    exact Scanner.needs_level hne ht.swallowed_eq (by omega)
      (Scanner.needs_segment ho hroom (Nat.le_add_right _ _) (by omega) htag) hrest

end

theorem SegmentRead.needs {closes : Text → Option Nat} {text rest : Text} {s : Segment K}
    (h : SegmentRead rules closes text s rest) {l : Limits} (source : Text) {g : Gauge} {n : Nat}
    (hroom : l.Room g.depth n) :
    l.Needs (g.depth + s.nesting) (n + s.count) (.ok ⟨s, rest, n + s.count⟩)
      ((Scanner.mk rules l source).segmentAt g n closes text) := by
  have hpos := s.count_pos
  cases h with
  | swallows ho hs => exact Scanner.needs_literal source (.swallows ho hs) hroom
  | literal ho hs => exact Scanner.needs_literal source (.literal ho hs) hroom
  | tag ho ht =>
    exact Scanner.needs_segment ho hroom (Nat.le_add_right _ _) (by omega) fun h1 =>
      ht.needs source h1 (by omega)

/-- There is room for a start under any bounds. -/
theorem Limits.room_start (l : Limits) : l.Room Gauge.start.depth 0 :=
  ⟨Nat.zero_le _, .inl (Nat.zero_le _)⟩

section

variable {l : Limits} {source mid after : Text} {first second : Segment K} {deep m : Nat}

/-- What follows the first segment of a source takes what it takes on its own. -/
theorem SegmentRead.needs_outline {v : Except Error (Outline K)}
    (h : SegmentRead rules noTag source first mid) (hmid : mid ≠ []) (hm : first.count ≤ m)
    (hrest : l.Room Gauge.start.depth first.count → l.Needs deep m v (do
      let second ← (Scanner.mk rules l source).segmentAt .start first.count noTag mid
      let n ← l.grant second.admitted
      let level ← (Scanner.mk rules l source).levelAt .start n noTag second.rest
      .ok (.series first second.segment level.segments))) :
    l.Needs (max first.nesting deep) m v (Scanner.mk rules l source).outline := by
  have hseg := h.needs source l.room_start
  have hdepth : Gauge.start.depth + first.nesting = first.nesting := Nat.zero_add _
  rw [hdepth, Nat.zero_add] at hseg
  rw [Scanner.outline_eq]
  refine hseg.bind (Nat.le_max_left _ _) hm fun h1 => ?_
  dsimp only
  rw [if_neg hmid]
  have hroom : l.Room Gauge.start.depth first.count := h1.mono (Nat.zero_le _) (Nat.le_refl _)
  exact (hrest hroom).widen (Nat.le_max_right _ _) h1.max

/-- What follows the first two segments of a source takes what it takes on its own. -/
theorem SegmentRead.needs_series {v : Except Error (ScannedLevel K)}
    (h : SegmentRead rules noTag source first mid) (hmid : mid ≠ [])
    (h' : SegmentRead rules noTag mid second after) (hm : first.count + second.count + 1 ≤ m)
    (hrest : l.Room Gauge.start.depth (first.count + second.count + 1) → l.Needs deep m v
      ((Scanner.mk rules l source).levelAt .start (first.count + second.count + 1) noTag after)) :
    l.Needs (max first.nesting (max second.nesting deep)) m
      (v >>= fun level => .ok (.series first second level.segments))
      (Scanner.mk rules l source).outline := by
  refine h.needs_outline hmid (by omega) fun h0 => ?_
  have hseg := h'.needs source h0
  have hdepth : Gauge.start.depth + second.nesting = second.nesting := Nat.zero_add _
  rw [hdepth] at hseg
  refine hseg.bind (Nat.le_max_left _ _) (by omega) fun h1 => ?_
  have hroom : l.Room Gauge.start.depth (first.count + second.count) :=
    h1.mono (Nat.zero_le _) (Nat.le_refl _)
  refine hroom.needs_grant.bind (Nat.zero_le _) hm fun h2 => ?_
  exact ((hrest h2).widen (Nat.le_max_right _ _) h1.max).bind_free _

end

/-- **A scan takes the depth and the tokens of what it reads.** -/
theorem OutlineRead.needs {source : Text} {o : Outline K} (h : OutlineRead rules source o)
    (l : Limits) : l.Needs o.nesting o.count (.ok o) (Scanner.mk rules l source).outline := by
  cases h with
  | @single s h =>
    have hdeep : (Outline.single s).nesting = Gauge.start.depth + s.nesting := by
      simp [Outline.nesting, Outline.segments, Segment.nesting.deepest, Gauge.start]
    have hcount : (Outline.single s).count = 0 + s.count := (Nat.zero_add _).symm
    rw [Scanner.outline_eq, hdeep, hcount]
    refine (h.needs source l.room_start).bind (Nat.le_refl _) (Nat.le_refl _) fun h1 => ?_
    dsimp only
    rw [if_pos rfl]
    exact h1.needs _
  | @series first second mid after more h hmid h' hl =>
    have hlevel : l.Room Gauge.start.depth (first.count + second.count + 1) → _ := fun h0 =>
      hl.needs source h0 rfl
    have hdepth : Gauge.start.depth + Segment.nesting.deepest more = Segment.nesting.deepest more :=
      Nat.zero_add _
    rw [hdepth] at hlevel
    exact h.needs_series hmid h' (Nat.le_add_right _ _) hlevel

/-! ## A tag that is left open -/

mutual

/-- **Reading a tag up to a tag that stays open takes a depth and a number of tokens,** whatever
the bounds. -/
theorem TagOpen.exists_needs {o : Opening K} {text left : Text} {t : Tag K}
    (h : TagOpen rules t left o text) (source : Text) :
    ∃ deep more, (rules.opening? [] = none → text ≠ [] →
        deep + 1 ≤ Text.bytes text ∧ more + 4 ≤ 4 * Text.bytes text) ∧
      ∀ (l : Limits) (g : Gauge) (n : Nat), l.Room g.depth n →
        l.Needs (g.depth + deep) (n + more)
          (.error (t.unclosed (Text.bytes source - Text.bytes left)))
          ((Scanner.mk rules l source).tagAt g n o text) := by
  match h with
  | .missing ht hleft hs =>
    rw [ht, hleft]
    refine ⟨0, 0, fun _ hne => ?_, fun l g n hroom => ?_⟩
    · have hpos := Text.bytes_pos hne
      omega
    · rw [Scanner.tagAt_of_missing hs]
      exact hroom.needs _
  | .first hs hf =>
    obtain ⟨deep, more, hsmall, hneeds⟩ := hf.exists_needs source
    refine ⟨deep + 1, more + 3, fun hnil hne => ?_, fun l g n hroom => ?_⟩
    · obtain ⟨htext, hinner⟩ := Opening.text_of_opens hs
      obtain ⟨hd, hm⟩ := hsmall hnil (ne_nil_of_opening hnil hinner)
      have hopening := o.bytes_pos hne
      have hbytes := congrArg Text.bytes htext
      simp only [Text.bytes_append] at hbytes
      omega
    · have hdepth : g.depth + (deep + 1) = g.enter.depth + deep := by
        simp only [Gauge.enter]
        omega
      have htokens : n + (more + 3) = n + 3 + more := by omega
      rw [hdepth, htokens]
      exact Scanner.needs_tag hs hroom (Nat.le_add_right _ _) (Nat.le_add_right _ _) fun h0 =>
        (hneeds l g.enter (n + 3) h0).bind_error
  | @TagOpen.level _ _ _ _ _ _ _ _ _ _ first hs hf hl =>
    obtain ⟨deep, more, hsmall, hneeds⟩ := hl.exists_needs source
    have hpos := first.count_pos
    refine ⟨max first.nesting deep + 1, first.count + 2 + more, fun hnil hne => ?_,
      fun l g n hroom => ?_⟩
    · obtain ⟨hd, hm⟩ := hsmall hnil
      exact TagRead.small_nest hnil hne hs hf hd hm
    · have hfirst : l.Room g.enter.depth (n + 3) → _ := fun h0 =>
        hf.needs source h0 (m := n + (first.count + 2)) (by omega)
      have hlevel := hneeds l g.enter (n + (first.count + 2))
      rw [← Nat.add_assoc n]
      exact Scanner.needs_tag_level hs hroom (by omega) (by omega) hfirst hlevel
  | @TagOpen.ended _ _ _ _ _ _ _ _ _ _ _ first siblings ht hleft hs hf hl =>
    rw [ht, hleft]
    have hpos := first.count_pos
    refine ⟨max first.nesting (Segment.nesting.deepest siblings) + 1,
      first.count + 2 + Segment.count.counts siblings, fun hnil hne => ?_, fun l g n hroom => ?_⟩
    · obtain ⟨hd, hm⟩ := hl.small_of_none hnil
      exact TagRead.small_nest hnil hne hs hf hd hm
    · have hfirst : l.Room g.enter.depth (n + 3) → _ := fun h0 =>
        hf.needs source h0 (m := n + (first.count + 2)) (by omega)
      have hlevel : l.Room g.enter.depth (n + (first.count + 2)) → _ := fun h1 =>
        hl.needs source h1 rfl
      rw [← Nat.add_assoc n]
      exact Scanner.needs_tag_level hs hroom (by omega) (by omega) hfirst hlevel

theorem LevelOpen.exists_needs {closes : Text → Option Nat} {text left : Text} {t : Tag K}
    (h : LevelOpen rules t left closes text) (source : Text) :
    ∃ deep more, (rules.opening? [] = none →
        deep ≤ Text.bytes text ∧ more ≤ 4 * Text.bytes text) ∧
      ∀ (l : Limits) (g : Gauge) (n : Nat), l.Room g.depth n →
        l.Needs (g.depth + deep) (n + more)
          (.error (t.unclosed (Text.bytes source - Text.bytes left)))
          ((Scanner.mk rules l source).levelAt g n closes text) := by
  match h with
  | .literal hne ho hs hl =>
    obtain ⟨deep, more, hsmall, hneeds⟩ := hl.exists_needs source
    refine ⟨max 0 deep, 1 + more, fun hnil => ?_, fun l g n hroom => ?_⟩
    · obtain ⟨hd, hm⟩ := hsmall hnil
      have hplain := bytes_pos_of_boundary hne ho hs
      have hbytes := congrArg Text.bytes (Ruleset.literalStop_boundary hs)
      rw [Text.bytes_append] at hbytes
      omega
    · have hlevel := hneeds l g (n + 1)
      rw [← Nat.add_assoc]
      have hfirst := Scanner.needs_literal source (.literal ho hs) hroom
      have hwhole := Scanner.needs_level (r := .literal _ none) hne rfl (Nat.le_add_right _ _) hfirst
        hlevel
      exact hwhole
  | .here hne ho ht =>
    obtain ⟨deep, more, hsmall, hneeds⟩ := ht.exists_needs source
    refine ⟨deep, 1 + more, fun hnil => ?_, fun l g n hroom => ?_⟩
    · obtain ⟨hd, hm⟩ := hsmall hnil hne
      omega
    · rw [Scanner.levelAt_of_ne hne, ← Nat.add_assoc]
      refine (Scanner.needs_segment ho hroom (Nat.le_add_right _ _) (Nat.le_add_right _ _) fun h1 => ?_).bind_error
      exact hneeds l g (n + 1) h1
  | @LevelOpen.later _ _ _ _ _ _ _ _ s hne ho ht hl =>
    obtain ⟨deep, more, hsmall, hneeds⟩ := hl.exists_needs source
    refine ⟨max s.nesting deep, s.count + more, fun hnil => ?_, fun l g n hroom => ?_⟩
    · obtain ⟨hd, hm⟩ := hsmall hnil
      obtain ⟨htd, htm⟩ := ht.small hnil hne
      have hbytes := ht.bytes_eq
      omega
    · have hlevel := hneeds l g (n + s.count)
      rw [← Nat.add_assoc]
      exact Scanner.needs_level hne ht.swallowed_eq (Nat.le_add_right _ _)
        ((SegmentRead.tag ho ht).needs source hroom) hlevel

end

/-- A segment that leaves a tag open takes one token and what its tag takes. -/
theorem TagOpen.exists_needs_segment {o : Opening K} {text left : Text} {t : Tag K}
    (h : TagOpen rules t left o text) (ho : rules.opening? text = some o) (source : Text) :
    ∃ deep more, (rules.opening? [] = none →
        deep ≤ Text.bytes text ∧ more ≤ 4 * Text.bytes text) ∧
      ∀ (l : Limits) (g : Gauge) (n : Nat) (closes : Text → Option Nat), l.Room g.depth n →
        l.Needs (g.depth + deep) (n + more)
          (.error (t.unclosed (Text.bytes source - Text.bytes left)))
          ((Scanner.mk rules l source).segmentAt g n closes text) := by
  obtain ⟨deep, more, hsmall, hneeds⟩ := h.exists_needs source
  refine ⟨deep, 1 + more, fun hnil => ?_, fun l g n closes hroom => ?_⟩
  · obtain ⟨hd, hm⟩ := hsmall hnil (ne_nil_of_opening hnil ho)
    omega
  · rw [← Nat.add_assoc]
    exact Scanner.needs_segment ho hroom (Nat.le_add_right _ _) (Nat.le_add_right _ _) fun h1 =>
      hneeds l g (n + 1) h1

/-- **A scan that leaves a tag open takes the depth and the tokens of what it reads up to
there.** -/
theorem OutlineOpen.exists_needs {source left : Text} {t : Tag K}
    (h : OutlineOpen rules source t left) :
    ∃ deep more, (rules.opening? [] = none →
        deep ≤ Text.bytes source ∧ more ≤ 4 * Text.bytes source + 1) ∧
      ∀ l : Limits, l.Needs deep more (.error (t.unclosed (Text.bytes source - Text.bytes left)))
        (Scanner.mk rules l source).outline := by
  have hstart : Gauge.start.depth = 0 := rfl
  -- the first segment may leave the tag open, and the source need not hold anything then
  have hfirst : (∃ o, rules.opening? source = some o ∧ TagOpen rules t left o source) ∨
      (source ≠ [] ∧ ∃ s mid, SegmentRead rules noTag source s mid ∧ s.swallowed = none ∧
        LevelOpen rules t left noTag mid) := by
    rcases h with hhere | hlevel
    · exact .inl hhere
    · obtain ⟨hne, hhere | hlater⟩ := hlevel.head_or_tail
      · exact .inl hhere
      · exact .inr ⟨hne, hlater⟩
  rcases hfirst with ⟨o, ho, ht⟩ | ⟨hne, first, mid, hf, hsw, hl⟩
  · obtain ⟨deep, more, hsmall, hneeds⟩ := ht.exists_needs_segment ho source
    refine ⟨deep, more, fun hnil => ?_, fun l => ?_⟩
    · obtain ⟨hd, hm⟩ := hsmall hnil
      omega
    · have hseg := hneeds l .start 0 noTag l.room_start
      rw [hstart, Nat.zero_add, Nat.zero_add] at hseg
      rw [Scanner.outline_eq]
      exact hseg.bind_error
  obtain ⟨hmid, ⟨o, ho, ht⟩ | ⟨second, after, hs, hsw', hl'⟩⟩ := hl.head_or_tail
  · obtain ⟨deep, more, hsmall, hneeds⟩ := ht.exists_needs_segment ho source
    refine ⟨max first.nesting deep, first.count + more, fun hnil => ?_, fun l => ?_⟩
    · obtain ⟨hd, hm⟩ := hsmall hnil
      obtain ⟨hfd, hfm⟩ := hf.small hnil hne hsw
      have hbytes := hf.bytes_eq hsw
      omega
    · refine hf.needs_outline hmid (Nat.le_add_right _ _) fun h0 => ?_
      have hseg := hneeds l .start first.count noTag h0
      rw [hstart, Nat.zero_add] at hseg
      exact hseg.bind_error
  · obtain ⟨deep, more, hsmall, hneeds⟩ := hl'.exists_needs source
    refine ⟨max first.nesting (max second.nesting deep), first.count + second.count + 1 + more,
      fun hnil => ?_, fun l => ?_⟩
    · obtain ⟨hd, hm⟩ := hsmall hnil
      obtain ⟨hfd, hfm⟩ := hf.small hnil hne hsw
      obtain ⟨hsd, hsm⟩ := hs.small hnil hmid hsw'
      have hbytes := hf.bytes_eq hsw
      have hbytes' := hs.bytes_eq hsw'
      omega
    · have hlevel := hneeds l .start (first.count + second.count + 1)
      rw [hstart, Nat.zero_add] at hlevel
      exact hf.needs_series hmid hs (Nat.le_add_right _ _) hlevel

end Bracketry
