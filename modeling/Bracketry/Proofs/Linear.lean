import Bracketry.Proofs.Limited

/-!
# A scan takes no more than its source

A tag is read from less text than the one around it, unless a rule opens a tag at the end of
the text, and a segment from less text than the one before it. So the grammar has an answer
for every source, and a scan needs no bounds to come to it: it delegates at most once for each
byte and admits at most four tokens for each byte and one more.

* `tag_read_or_open`, `level_read_or_open`: the grammar reads a text or leaves a tag open.
* `scan_linear`: **every source has an answer of its own, and bounds that are linear in the
  source leave room for it.**
-/

namespace Bracketry

variable {K : Type} {rules : Ruleset K}

/-! ## The grammar has an answer -/

/-- What is left behind the first tag inside a tag is shorter than what the tag opens. -/
theorem bytes_lt_of_opens {o inner : Opening K} {text seed mid : Text} (hne : text ≠ [])
    (h : o.stop rules text = .opens seed inner mid) : Text.bytes mid < Text.bytes text := by
  have hopening := o.bytes_pos hne
  have hbytes := congrArg Text.bytes (Opening.text_of_opens h).1
  rw [Text.bytes_append, Text.bytes_append] at hbytes
  omega

theorem TagRead.bytes_lt (hnil : rules.opening? [] = none) {o : Opening K} {text rest : Text}
    {s : Segment K} (h : TagRead rules o text s rest) (hne : text ≠ []) :
    Text.bytes rest < Text.bytes text := by
  have hsmall := (h.small hnil hne).1
  have hbytes := h.bytes_eq
  omega

theorem bytes_lt_of_boundary {closes : Text → Option Nat} {text plain mid : Text} (hne : text ≠ [])
    (ho : rules.opening? text = none) (hs : rules.literalStop closes text = .boundary plain mid) :
    Text.bytes mid < Text.bytes text := by
  have hplain := bytes_pos_of_boundary hne ho hs
  have hbytes := congrArg Text.bytes (Ruleset.literalStop_boundary hs)
  rw [Text.bytes_append] at hbytes
  omega

mutual

/-- **A tag is read or left open.** -/
theorem tag_read_or_open (hnil : rules.opening? [] = none) (o : Opening K) (text : Text)
    (ho : rules.opening? text = some o) :
    (∃ s rest, TagRead rules o text s rest) ∨ ∃ t left, TagOpen rules t left o text := by
  have hne := ne_nil_of_opening hnil ho
  cases hs : o.stop rules text with
  | closed content closing rest => exact .inl ⟨_, _, .plain hs⟩
  | missing => exact .inr ⟨_, _, .missing rfl rfl hs⟩
  | opens seed inner mid =>
    have hinner := (Opening.text_of_opens hs).2
    have hmid := bytes_lt_of_opens hne hs
    rcases tag_read_or_open hnil inner mid hinner with ⟨first, after, hf⟩ | ⟨t, left, hopen⟩
    · have hafter := hf.bytes_lt hnil (ne_nil_of_opening hnil hinner)
      rcases level_read_or_open hnil (o.tag text).closes after with
        ⟨siblings, closing, rest, hl⟩ | ⟨t, left, hopen⟩
      · cases closing with
        | some closing => exact .inl ⟨_, _, .nest hs hf hl⟩
        | none => exact .inr ⟨_, _, .ended rfl rfl hs hf hl⟩
      · exact .inr ⟨t, left, .level hs hf hopen⟩
    · exact .inr ⟨t, left, .first hs hopen⟩
termination_by (Text.bytes text, 0)

/-- A level is read, or it leaves a tag open. -/
theorem level_read_or_open (hnil : rules.opening? [] = none) (closes : Text → Option Nat)
    (text : Text) :
    (∃ segments closing rest, LevelRead rules closes text segments closing rest) ∨
      ∃ t left, LevelOpen rules t left closes text := by
  by_cases hne : text = []
  · subst hne
    exact .inl ⟨[], none, [], .done⟩
  cases ho : rules.opening? text with
  | some o =>
    rcases tag_read_or_open hnil o text ho with ⟨s, mid, ht⟩ | ⟨t, left, hopen⟩
    · have hmid := ht.bytes_lt hnil hne
      rcases level_read_or_open hnil closes mid with ⟨segments, closing, rest, hl⟩ | ⟨t, left, hopen⟩
      · exact .inl ⟨_, _, _, .tag hne ho ht hl⟩
      · exact .inr ⟨t, left, .later hne ho ht hopen⟩
    · exact .inr ⟨t, left, .here hne ho hopen⟩
  | none =>
    cases hs : rules.literalStop closes text with
    | swallows plain closing rest => exact .inl ⟨_, _, _, .swallows hne ho hs⟩
    | boundary plain mid =>
      have hmid := bytes_lt_of_boundary hne ho hs
      rcases level_read_or_open hnil closes mid with ⟨segments, closing, rest, hl⟩ | ⟨t, left, hopen⟩
      · exact .inl ⟨_, _, _, .literal hne ho hs hl⟩
      · exact .inr ⟨t, left, .literal hne ho hs hopen⟩
termination_by (Text.bytes text, 1)

end

theorem segment_read_or_open (hnil : rules.opening? [] = none) (closes : Text → Option Nat)
    (text : Text) :
    (∃ s rest, SegmentRead rules closes text s rest) ∨
      ∃ o t left, rules.opening? text = some o ∧ TagOpen rules t left o text := by
  cases ho : rules.opening? text with
  | some o =>
    rcases tag_read_or_open hnil o text ho with ⟨s, rest, ht⟩ | ⟨t, left, hopen⟩
    · exact .inl ⟨s, rest, .tag ho ht⟩
    · exact .inr ⟨o, t, left, rfl, hopen⟩
  | none =>
    cases hs : rules.literalStop closes text with
    | swallows plain closing rest => exact .inl ⟨_, rest, .swallows ho hs⟩
    | boundary plain rest => exact .inl ⟨_, rest, .literal ho hs⟩

/-- **A source is read, or it leaves a tag open.** -/
theorem outline_read_or_open (hnil : rules.opening? [] = none) (source : Text) :
    (∃ o, OutlineRead rules source o) ∨ ∃ t left, OutlineOpen rules source t left := by
  rcases segment_read_or_open hnil noTag source with ⟨first, mid, h⟩ | ⟨o, t, left, ho, hopen⟩
  swap
  · exact .inr ⟨t, left, .inl ⟨o, ho, hopen⟩⟩
  have hsw := h.swallowed_noTag
  by_cases hmid : mid = []
  · subst hmid
    exact .inl ⟨_, .single h⟩
  -- something is left after the first segment, so the source is not empty
  have hne : source ≠ [] := by
    rintro rfl
    have htext := h.text_eq
    simp only [List.append_eq_nil_iff] at htext
    exact hmid htext.2
  rcases segment_read_or_open hnil noTag mid with ⟨second, after, h'⟩ | ⟨o, t, left, ho, hopen⟩
  swap
  · exact .inr ⟨t, left, .inr (h.level_open hne hsw (.here hmid ho hopen))⟩
  have hsw' := h'.swallowed_noTag
  rcases level_read_or_open hnil noTag after with ⟨more, closing, rest, hl⟩ | ⟨t, left, hopen⟩
  · obtain ⟨rfl, rfl⟩ := hl.closing_noTag
    exact .inl ⟨_, .series h hmid h' hl⟩
  · exact .inr ⟨t, left, .inr (h.level_open hne hsw (h'.level_open hmid hsw' hopen))⟩

/-- What is read of a source is nested no deeper than it is long, and it has no more than four
tokens for each byte and one more. -/
theorem OutlineRead.small (hnil : rules.opening? [] = none) {source : Text} {o : Outline K}
    (h : OutlineRead rules source o) :
    o.nesting ≤ Text.bytes source ∧ o.count ≤ 4 * Text.bytes source + 1 := by
  cases h with
  | @single s h =>
    have hdeep : (Outline.single s).nesting = s.nesting := Nat.max_zero _
    have hcount : (Outline.single s).count = s.count := rfl
    have hbytes := h.bytes_eq h.swallowed_noTag
    by_cases hne : source = []
    · subst hne
      cases h with
      | swallows _ _ => exact ⟨Nat.zero_le _, Nat.le_add_left _ _⟩
      | literal _ _ => exact ⟨Nat.zero_le _, Nat.le_add_left _ _⟩
      | tag ho _ => exact absurd rfl (ne_nil_of_opening hnil ho)
    · obtain ⟨hd, hm⟩ := h.small hnil hne h.swallowed_noTag
      omega
  | @series first second mid after more h hmid h' hl =>
    have hdeep : (Outline.series first second more).nesting =
        max first.nesting (max second.nesting (Segment.nesting.deepest more)) := rfl
    have hcount : (Outline.series first second more).count =
        first.count + second.count + 1 + Segment.count.counts more := rfl
    have hbytes := h.bytes_eq h.swallowed_noTag
    have hbytes' := h'.bytes_eq h'.swallowed_noTag
    have hpos := Text.bytes_pos hmid
    have hne : source ≠ [] := by
      rintro rfl
      rw [Text.bytes_nil] at hbytes
      omega
    obtain ⟨hd, hm⟩ := h.small hnil hne h.swallowed_noTag
    obtain ⟨hd', hm'⟩ := h'.small hnil hmid h'.swallowed_noTag
    obtain ⟨hdl, hml⟩ := hl.small_of_none hnil
    omega

/-! ## Scans -/

section

variable [DecidableEq K] [Taxonomy K]

/-- **A scan takes no more than its source.** If no rule opens a tag at the end of the text,
every source has an answer: a tree, or the error of a tag that is left open. Under any bounds
the scan comes to this answer if they leave room for a depth and a number of tokens, and it
stops one step beyond a bound if not. The depth is at most the length of the source in bytes,
the number of tokens at most four times that and one. -/
theorem scan_linear (hrules : ∀ rule ∈ rules.rules, ∀ n, rule.opens [] ≠ some (n + 1))
    (source : Text) :
    ∃ (answer : Except Error (TokenTree K)) (deep tokens : Nat),
      deep ≤ Text.bytes source ∧ tokens ≤ 4 * Text.bytes source + 1 ∧
      (∀ e, answer = .error e → ¬e.IsLimit) ∧
      (∀ t, answer = .ok t → t.size = tokens ∧ t.Nested deep) ∧
      ∀ l : Limits, l.Needs deep tokens answer (TokenTree.scan rules l source) ∧
        (Text.bytes source ≤ l.depth → 4 * Text.bytes source + 1 ≤ l.tokens →
          TokenTree.scan rules l source = answer) := by
  have hnil : rules.opening? [] = none := Ruleset.opening?_eq_none_iff.2 hrules
  rcases outline_read_or_open hnil source with ⟨o, hread⟩ | ⟨t, left, hopen⟩
  · obtain ⟨hd, hm⟩ := hread.small hnil
    have hdrawn : (TokenTree.ofOutline rules source o).Drawn rules o := ⟨hread, rfl, rfl⟩
    refine ⟨.ok (TokenTree.ofOutline rules source o), o.nesting, o.count, hd, hm, ?_, ?_, ?_⟩
    · intro e he
      cases he
    · intro t ht
      cases ht
      exact ⟨hdrawn.size_eq_count, (hdrawn.nested_iff _).2 (Nat.le_refl _)⟩
    · intro l
      have hneeds := TokenTree.scan_needs hread l
      refine ⟨hneeds, fun hdepth htokens => hneeds.room ⟨?_, .inl ?_⟩⟩
      · omega
      · omega
  · obtain ⟨deep, more, hsmall, hneeds⟩ := TokenTree.scan_needs_open hopen
    obtain ⟨hd, hm⟩ := hsmall hnil
    refine ⟨_, deep, more, hd, hm, ?_, ?_, fun l => ⟨hneeds l, ?_⟩⟩
    · intro e he hlimit
      cases he
      exact hlimit
    · intro t ht
      cases ht
    · intro hdepth htokens
      refine (hneeds l).room ⟨?_, .inl ?_⟩
      · omega
      · omega

end

theorem scan_linear_sample :
    (∀ rule ∈ Template.rules.rules, ∀ n, rule.opens [] ≠ some (n + 1)) ∧
      ∃ t, t.size ≤ 49 ∧ t.Nested 12 ∧ ∀ l : Limits, 12 ≤ l.depth → 49 ≤ l.tokens →
        TokenTree.scan Template.rules l Template.sample = .ok t := by
  have hrules : ∀ rule ∈ Template.rules.rules, ∀ n, rule.opens [] ≠ some (n + 1) :=
    Ruleset.opening?_eq_none_iff.1 rfl
  have hbytes : Text.bytes Template.sample = 12 := rfl
  obtain ⟨answer, deep, tokens, hdeep, htokens, -, htree, hscan⟩ :=
    scan_linear hrules Template.sample
  rw [hbytes] at hdeep htokens
  obtain ⟨t, ht, -⟩ := Template.scan_sample
  have hanswer : answer = .ok t := by
    rw [← (hscan .default).2 (by decide) (by decide), ht]
  obtain ⟨hsize, hnested⟩ := htree t hanswer
  refine ⟨hrules, t, by omega, ?_, ?_⟩
  · intro id node hnode
    have hle := hnested id node hnode
    omega
  · intro l hd ht
    rw [← hanswer]
    exact (hscan l).2 (by rw [hbytes]; exact hd) (by rw [hbytes]; exact ht)

end Bracketry
