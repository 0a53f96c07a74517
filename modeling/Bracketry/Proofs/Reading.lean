import Bracketry.Scan.Read

/-!
# What a scan reads

The segments that a ruleset gives to a text, as a grammar without bounds and
without counting: `TagRead` for one tag, `LevelRead` for the segments of a level,
`OutlineRead` for a source. `TagOpen`, `LevelOpen` and `OutlineOpen` say which tag
the end of the text leaves open instead.

* `outline_answers`: a scan answers with the segments of the grammar, with the
  tag left open, or with a limit. **Nothing else can happen in a scan.**
* `TagRead.text_eq`, `LevelRead.text_eq`, `OutlineRead.text_eq`: what is read is
  the text that was there.
-/

namespace Bracketry

variable {K : Type}

/-- The plain text at the start of the content of the tag opened at `text`. -/
def Opening.stop (rules : Ruleset K) (o : Opening K) (text : Text) : ContentStop K :=
  rules.contentStop (o.tag text).closes (Text.drop o.length text)

/-- No close delimiter: the outermost level has no enclosing tag. -/
def noTag : Text → Option Nat := fun _ => none

mutual

/-- The tag that an opening opens at the start of a text is read as a segment,
and a rest is left. -/
inductive TagRead (rules : Ruleset K) : Opening K → Text → Segment K → Text → Prop
  | plain {o : Opening K} {text content closing rest : Text} :
      o.stop rules text = .closed content closing rest →
      TagRead rules o text (.tag (o.tag text) content closing) rest
  | nest {o inner : Opening K} {text seed mid after closing rest : Text} {first : Segment K}
      {siblings : List (Segment K)} :
      o.stop rules text = .opens seed inner mid → TagRead rules inner mid first after →
      LevelRead rules (o.tag text).closes after siblings (some closing) rest →
      TagRead rules o text (.nest (o.tag text) seed first siblings closing) rest

/-- A text is read as segments in a row, up to its end or to the close delimiter
that the last segment swallows, and a rest is left. -/
inductive LevelRead (rules : Ruleset K) :
    (Text → Option Nat) → Text → List (Segment K) → Option Text → Text → Prop
  | done {closes : Text → Option Nat} : LevelRead rules closes [] [] none []
  | swallows {closes : Text → Option Nat} {text plain closing rest : Text} :
      text ≠ [] → rules.opening? text = none →
      rules.literalStop closes text = .swallows plain closing rest →
      LevelRead rules closes text [.literal plain (some closing)] (some closing) rest
  | literal {closes : Text → Option Nat} {text plain mid rest : Text}
      {segments : List (Segment K)} {closing : Option Text} :
      text ≠ [] → rules.opening? text = none →
      rules.literalStop closes text = .boundary plain mid →
      LevelRead rules closes mid segments closing rest →
      LevelRead rules closes text (.literal plain none :: segments) closing rest
  | tag {closes : Text → Option Nat} {text mid rest : Text} {o : Opening K} {s : Segment K}
      {segments : List (Segment K)} {closing : Option Text} :
      text ≠ [] → rules.opening? text = some o → TagRead rules o text s mid →
      LevelRead rules closes mid segments closing rest →
      LevelRead rules closes text (s :: segments) closing rest

end

/-- One segment at the start of a text, on a level with a given close delimiter. -/
inductive SegmentRead (rules : Ruleset K) (closes : Text → Option Nat) (text : Text) :
    Segment K → Text → Prop
  | swallows {plain closing rest : Text} : rules.opening? text = none →
      rules.literalStop closes text = .swallows plain closing rest →
      SegmentRead rules closes text (.literal plain (some closing)) rest
  | literal {plain rest : Text} : rules.opening? text = none →
      rules.literalStop closes text = .boundary plain rest →
      SegmentRead rules closes text (.literal plain none) rest
  | tag {o : Opening K} {s : Segment K} {rest : Text} : rules.opening? text = some o →
      TagRead rules o text s rest → SegmentRead rules closes text s rest

/-- The segments of a whole source. -/
inductive OutlineRead (rules : Ruleset K) (source : Text) : Outline K → Prop
  | single {s : Segment K} : SegmentRead rules noTag source s [] → OutlineRead rules source (.single s)
  | series {first second : Segment K} {mid after : Text} {more : List (Segment K)} :
      SegmentRead rules noTag source first mid → mid ≠ [] →
      SegmentRead rules noTag mid second after → LevelRead rules noTag after more none [] →
      OutlineRead rules source (.series first second more)

mutual

/-- Reading the tag that an opening opens leaves the tag `t` open, which starts
where only `left` is left to read. -/
inductive TagOpen (rules : Ruleset K) (t : Tag K) (left : Text) : Opening K → Text → Prop
  | missing {o : Opening K} {text : Text} : t = o.tag text → left = text →
      o.stop rules text = .missing → TagOpen rules t left o text
  | first {o inner : Opening K} {text seed mid : Text} :
      o.stop rules text = .opens seed inner mid → TagOpen rules t left inner mid →
      TagOpen rules t left o text
  | level {o inner : Opening K} {text seed mid after : Text} {first : Segment K} :
      o.stop rules text = .opens seed inner mid → TagRead rules inner mid first after →
      LevelOpen rules t left (o.tag text).closes after → TagOpen rules t left o text
  | ended {o inner : Opening K} {text seed mid after rest : Text} {first : Segment K}
      {siblings : List (Segment K)} : t = o.tag text → left = text →
      o.stop rules text = .opens seed inner mid → TagRead rules inner mid first after →
      LevelRead rules (o.tag text).closes after siblings none rest → TagOpen rules t left o text

/-- Reading a level leaves a tag open. -/
inductive LevelOpen (rules : Ruleset K) (t : Tag K) (left : Text) :
    (Text → Option Nat) → Text → Prop
  | literal {closes : Text → Option Nat} {text plain mid : Text} :
      text ≠ [] → rules.opening? text = none →
      rules.literalStop closes text = .boundary plain mid → LevelOpen rules t left closes mid →
      LevelOpen rules t left closes text
  | here {closes : Text → Option Nat} {text : Text} {o : Opening K} :
      text ≠ [] → rules.opening? text = some o → TagOpen rules t left o text →
      LevelOpen rules t left closes text
  | later {closes : Text → Option Nat} {text mid : Text} {o : Opening K} {s : Segment K} :
      text ≠ [] → rules.opening? text = some o → TagRead rules o text s mid →
      LevelOpen rules t left closes mid → LevelOpen rules t left closes text

end

/-- Reading a source leaves a tag open. A level is never read where nothing is
left, but a source may be empty and a rule may open it. -/
def OutlineOpen (rules : Ruleset K) (source : Text) (t : Tag K) (left : Text) : Prop :=
  (∃ o, rules.opening? source = some o ∧ TagOpen rules t left o source) ∨
    LevelOpen rules t left noTag source

/-- The errors of a scan that stopped at one of its bounds. -/
def Error.IsLimit : Error → Prop
  | .tooDeep _ _ => True
  | .tooMany _ _ => True
  | _ => False

variable {rules : Ruleset K}

/-! ## The text that is read -/

theorem Opening.text_of_closed {o : Opening K} {text content closing rest : Text}
    (h : o.stop rules text = .closed content closing rest) :
    (o.tag text).opening ++ content ++ closing ++ rest = text := by
  have hd := Ruleset.contentStop_closed h
  have ht := Text.take_append_drop o.length text
  rw [← hd] at ht
  simpa [Opening.tag] using ht

theorem Opening.text_of_opens {o inner : Opening K} {text seed mid : Text}
    (h : o.stop rules text = .opens seed inner mid) :
    (o.tag text).opening ++ seed ++ mid = text ∧ rules.opening? mid = some inner := by
  obtain ⟨hd, hi⟩ := Ruleset.contentStop_opens h
  have ht := Text.take_append_drop o.length text
  rw [← hd] at ht
  exact ⟨by simpa [Opening.tag] using ht, hi⟩

mutual

/-- A tag covers the text up to what is left. -/
theorem TagRead.text_eq {o : Opening K} {text rest : Text} {s : Segment K}
    (h : TagRead rules o text s rest) : s.text ++ rest = text := by
  cases h with
  | plain hs => rw [Segment.text_tag]; exact Opening.text_of_closed hs
  | nest hs hf hl =>
    have h1 := (Opening.text_of_opens hs).1
    rw [← hf.text_eq, ← hl.text_eq] at h1
    rw [Segment.text_nest]
    simpa using h1

/-- The segments of a level and the close delimiter after them cover the text up
to what is left. -/
theorem LevelRead.text_eq {closes : Text → Option Nat} {text rest : Text}
    {segments : List (Segment K)} {closing : Option Text}
    (h : LevelRead rules closes text segments closing rest) :
    Segment.texts segments ++ closing.getD [] ++ rest = text := by
  cases h with
  | done => rfl
  | swallows _ _ hs => simpa [Segment.texts_nil] using Ruleset.literalStop_swallows hs
  | literal _ _ hs hl =>
    have h1 := Ruleset.literalStop_boundary hs
    rw [← hl.text_eq] at h1
    simpa using h1
  | tag _ _ ht hl =>
    have h1 := ht.text_eq
    rw [← hl.text_eq] at h1
    simpa using h1

end

theorem SegmentRead.text_eq {closes : Text → Option Nat} {text rest : Text} {s : Segment K}
    (h : SegmentRead rules closes text s rest) : s.text ++ s.swallowed.getD [] ++ rest = text := by
  cases h with
  | swallows _ hs => simpa [Segment.swallowed] using Ruleset.literalStop_swallows hs
  | literal _ hs => simpa [Segment.swallowed] using Ruleset.literalStop_boundary hs
  | tag _ ht =>
    have h1 := ht.text_eq
    cases ht <;> simpa [Segment.swallowed] using h1

/-! ## Where plain text stops -/

/-- A literal that swallows nothing stops at the end of the text or where a tag
opens, and the enclosing tag does not close there. -/
theorem boundary_stop {closes : Text → Option Nat} {text plain rest : Text}
    (h : rules.literalStop closes text = .boundary plain rest) :
    closes rest = none ∧ (rest = [] ∨ ∃ o, rules.opening? rest = some o) := by
  induction text generalizing plain with
  | nil =>
    unfold Ruleset.literalStop at h
    split at h
    · cases h
    · next hc => cases h; exact ⟨hc, .inl rfl⟩
  | cons c r ih =>
    unfold Ruleset.literalStop at h
    split at h
    · cases h
    · next hc =>
      dsimp only at h
      split at h
      -- the literal stops at once if a tag opens, else it goes on behind the character
      · next ho => cases h; exact ⟨hc, .inr (Option.isSome_iff_exists.1 ho)⟩
      · cases hr : rules.literalStop closes r with
        | swallows a b d => rw [hr] at h; cases h
        | boundary a b => rw [hr] at h; cases h; exact ih hr

/-- The content of a tag stops where a literal inside it would stop. -/
theorem literalStop_eq (rules : Ruleset K) (closes : Text → Option Nat) (text : Text) :
    rules.literalStop closes text = match rules.contentStop closes text with
      | .closed content closing rest => .swallows content closing rest
      | .opens content _ rest => .boundary content rest
      | .missing => .boundary text [] := by
  induction text with
  | nil =>
    unfold Ruleset.literalStop Ruleset.contentStop
    cases closes [] with
    | some n => rfl
    | none => cases rules.opening? [] <;> rfl
  | cons c rest ih =>
    unfold Ruleset.literalStop Ruleset.contentStop
    cases closes (c :: rest) with
    | some n => rfl
    | none =>
      cases ho : rules.opening? (c :: rest) with
      | some o => simp only [ho, Option.isSome_some, if_true]
      | none =>
        simp only [ho, Option.isSome_none, Bool.false_eq_true, if_false, ih]
        cases rules.contentStop closes rest <;> rfl

/-! ## Segments and levels -/

theorem TagRead.swallowed_eq {o : Opening K} {text rest : Text} {s : Segment K}
    (h : TagRead rules o text s rest) : s.swallowed = none := by
  cases h <;> rfl

/-- A segment that swallows the close delimiter ends its level. -/
theorem SegmentRead.level_of_swallowed {closes : Text → Option Nat} {text closing rest : Text}
    {s : Segment K} (h : SegmentRead rules closes text s rest) (hne : text ≠ [])
    (hs : s.swallowed = some closing) : LevelRead rules closes text [s] (some closing) rest := by
  cases h with
  | swallows ho hl => cases hs; exact .swallows hne ho hl
  | literal _ _ => cases hs
  | tag _ ht => rw [ht.swallowed_eq] at hs; cases hs

/-- A segment that swallows nothing is followed by the rest of its level. -/
theorem SegmentRead.level_cons {closes : Text → Option Nat} {text mid rest : Text} {s : Segment K}
    {segments : List (Segment K)} {closing : Option Text} (h : SegmentRead rules closes text s mid)
    (hne : text ≠ []) (hs : s.swallowed = none)
    (hl : LevelRead rules closes mid segments closing rest) :
    LevelRead rules closes text (s :: segments) closing rest := by
  cases h with
  | swallows _ _ => cases hs
  | literal ho hp => exact .literal hne ho hp hl
  | tag ho ht => exact .tag hne ho ht hl

theorem SegmentRead.level_open {closes : Text → Option Nat} {text mid left : Text} {s : Segment K}
    {t : Tag K} (h : SegmentRead rules closes text s mid) (hne : text ≠ [])
    (hs : s.swallowed = none) (hl : LevelOpen rules t left closes mid) :
    LevelOpen rules t left closes text := by
  cases h with
  | swallows _ _ => cases hs
  | literal ho hp => exact .literal hne ho hp hl
  | tag ho ht => exact .later hne ho ht hl

/-- The first segment of a level is read where the level begins, and the others after
it. -/
theorem LevelRead.head_tail {closes : Text → Option Nat} {text rest : Text} {s : Segment K}
    {segments : List (Segment K)} {closing : Option Text}
    (h : LevelRead rules closes text (s :: segments) closing rest) :
    ∃ mid, SegmentRead rules closes text s mid ∧
      (segments = [] ∨ (s.swallowed = none ∧ s.text ++ mid = text ∧
        LevelRead rules closes mid segments closing rest)) := by
  cases h with
  | swallows _ ho hs => exact ⟨rest, .swallows ho hs, .inl rfl⟩
  | literal _ ho hs hl =>
    refine ⟨_, .literal ho hs, .inr ⟨rfl, ?_, hl⟩⟩
    rw [Segment.text_literal]
    exact Ruleset.literalStop_boundary hs
  | tag _ ho ht hl => exact ⟨_, .tag ho ht, .inr ⟨ht.swallowed_eq, ht.text_eq, hl⟩⟩

/-- Without an enclosing tag there is no close delimiter to swallow. -/
theorem literalStop_noTag (rules : Ruleset K) (text plain closing rest : Text) :
    rules.literalStop noTag text ≠ .swallows plain closing rest := by
  induction text generalizing plain with
  | nil => simp [Ruleset.literalStop, noTag]
  | cons c r ih =>
    intro h
    unfold Ruleset.literalStop at h
    simp only [noTag] at h
    split at h
    · cases h
    · cases hr : rules.literalStop noTag r with
      | swallows a b d => exact ih a (by rw [hr]; simp_all [LiteralStop.cons])
      | boundary a b => simp_all [LiteralStop.cons]

theorem SegmentRead.swallowed_noTag {text rest : Text} {s : Segment K}
    (h : SegmentRead rules noTag text s rest) : s.swallowed = none := by
  cases h with
  | swallows _ hs => exact absurd hs (literalStop_noTag _ _ _ _ _)
  | literal _ _ => rfl
  | tag _ ht => exact ht.swallowed_eq

theorem LevelRead.closing_noTag {text rest : Text} {segments : List (Segment K)}
    {closing : Option Text} (h : LevelRead rules noTag text segments closing rest) :
    closing = none ∧ rest = [] := by
  induction segments generalizing text with
  | nil => cases h; exact ⟨rfl, rfl⟩
  | cons s segments ih =>
    cases h with
    | swallows _ _ hs => exact absurd hs (literalStop_noTag _ _ _ _ _)
    | literal _ _ _ hl => exact ih hl
    | tag _ _ _ hl => exact ih hl

/-- The segments of a source that is not empty are those of the outermost level. -/
theorem OutlineRead.level {source : Text} {o : Outline K} (h : OutlineRead rules source o)
    (hne : source ≠ []) : LevelRead rules noTag source o.segments none [] := by
  cases h with
  | single h => exact h.level_cons hne h.swallowed_noTag .done
  | series h1 hmid h2 hl =>
    exact h1.level_cons hne h1.swallowed_noTag (h2.level_cons hmid h2.swallowed_noTag hl)

/-- **The segments of a source cover it.** -/
theorem OutlineRead.text_eq {source : Text} {o : Outline K} (h : OutlineRead rules source o) :
    o.text = source := by
  cases h with
  | single h =>
    have h1 := h.text_eq
    rw [h.swallowed_noTag] at h1
    simpa [Outline.text, Outline.segments, Segment.texts_nil] using h1
  | series h1 hmid h2 hl =>
    have e1 := h1.text_eq
    rw [h1.swallowed_noTag, ← h2.text_eq, h2.swallowed_noTag, ← hl.text_eq] at e1
    simpa [Outline.text, Outline.segments] using e1

/-! ## The answers of a scan -/

namespace Scanner

/-- A text that is left starts behind what is before it. -/
theorem offset_eq (s : Scanner K) {before left : Text} (h : s.source = before ++ left) :
    s.offset left = Text.bytes before := by
  unfold offset
  rw [h, Text.bytes_append]
  omega

variable [DecidableEq K] [Taxonomy K]

/-- A scan answers with a good result, with the error of a tag that is left open,
or with a limit. -/
inductive Answers (s : Scanner K) {α : Type} (good : α → Prop) (left : Tag K → Text → Prop) :
    Except Error α → Prop
  | ok {a : α} : good a → Answers s good left (.ok a)
  | unclosed {t : Tag K} {text : Text} : left t text →
      Answers s good left (.error (t.unclosed (s.offset text)))
  | limit {e : Error} : e.IsLimit → Answers s good left (.error e)

theorem Answers.bind {s : Scanner K} {α β : Type} {good : α → Prop} {good' : β → Prop}
    {left left' : Tag K → Text → Prop} {x : Except Error α} {f : α → Except Error β}
    (hx : s.Answers good left x) (hleft : ∀ t text, left t text → left' t text)
    (hf : ∀ a, good a → s.Answers good' left' (f a)) : s.Answers good' left' (x >>= f) := by
  cases hx with
  | ok h => exact hf _ h
  | unclosed h => exact .unclosed (hleft _ _ h)
  | limit h => exact .limit h

/-- Admitting a token leaves no tag open. -/
theorem grant_answers (s : Scanner K) (n : Nat) :
    s.Answers (fun m => m = n + 1) (fun _ _ => False) (s.limits.grant n) := by
  unfold Limits.grant
  split
  · exact .limit trivial
  · exact .ok rfl

theorem isLimit_of_check {g : Gauge} {limit : Nat} {e : Error} (h : g.check limit = .error e) :
    e.IsLimit := by
  unfold Gauge.check at h
  split at h
  · cases h; trivial
  · cases h

mutual

theorem readTag_answers (s : Scanner K) (g : Gauge) (n : Nat) (o : Opening K) (text : Text) :
    s.Answers (fun r => TagRead s.rules o text r.val.segment r.val.rest ∧
        r.val.admitted + 1 = n + r.val.segment.count)
      (fun t left => TagOpen s.rules t left o text) (s.readTag g n o text) := by
  unfold readTag
  dsimp only
  split
  · next content closing rest h => exact .ok ⟨.plain h, by simp [Segment.count]⟩
  · next h => exact .unclosed (.missing rfl rfl h)
  · next seed inner rest h =>
    split
    · next e hg => exact .limit (isLimit_of_check hg)
    · next hg =>
      have := Gauge.room_enter hg
      rw [Ruleset.rule_of_opening (Opening.text_of_opens h).2]
      -- the tag inside, the seed and the group are admitted before anything else is read
      refine (s.grant_answers n).bind (fun _ _ => False.elim) ?_
      rintro _ rfl
      refine (s.grant_answers (n + 1)).bind (fun _ _ => False.elim) ?_
      rintro _ rfl
      refine (s.grant_answers (n + 1 + 1)).bind (fun _ _ => False.elim) ?_
      rintro _ rfl
      refine (readTag_answers s g.enter (n + 1 + 1 + 1) inner rest).bind (fun _ _ => .first h) ?_
      rintro ⟨first, _⟩ ⟨hf, hcf⟩
      refine (readLevel_answers s g.enter first.admitted (o.tag text).closes first.rest).bind
        (fun _ _ => .level h hf) ?_
      rintro ⟨level, _⟩ ⟨hl, hcl⟩
      dsimp only at hcf hcl hl ⊢
      split
      · next hc => rw [hc] at hl; exact .unclosed (.ended rfl rfl h hf hl)
      · next closing hc =>
        rw [hc] at hl
        refine .ok ⟨.nest h hf hl, ?_⟩
        simp only [Segment.count]
        omega
termination_by (s.limits.depth - g.depth, text.length, 0)

theorem readSegment_answers (s : Scanner K) (g : Gauge) (n : Nat) (closes : Text → Option Nat)
    (text : Text) :
    s.Answers (fun r => SegmentRead s.rules closes text r.val.segment r.val.rest ∧
        r.val.admitted = n + r.val.segment.count)
      (fun t left => ∃ o, s.rules.opening? text = some o ∧ TagOpen s.rules t left o text)
      (s.readSegment g n closes text) := by
  unfold readSegment
  split
  · next o h =>
    rw [Ruleset.rule_of_opening h]
    refine (s.grant_answers n).bind (fun _ _ => False.elim) ?_
    rintro _ rfl
    refine (readTag_answers s g (n + 1) o text).bind (fun _ _ hb => ⟨o, h, hb⟩) ?_
    rintro ⟨r, _⟩ ⟨hr, hc⟩
    exact .ok ⟨.tag h hr, by dsimp only at hc ⊢; omega⟩
  · next h =>
    refine (s.grant_answers n).bind (fun _ _ => False.elim) ?_
    rintro _ rfl
    split
    · next hs => exact .ok ⟨.swallows h hs, rfl⟩
    · next hs => exact .ok ⟨.literal h hs, rfl⟩
termination_by (s.limits.depth - g.depth, text.length, 1)

theorem readLevel_answers (s : Scanner K) (g : Gauge) (n : Nat) (closes : Text → Option Nat)
    (text : Text) :
    s.Answers (fun r => LevelRead s.rules closes text r.val.segments r.val.closing r.val.rest ∧
        r.val.admitted = n + Segment.count.counts r.val.segments)
      (fun t left => LevelOpen s.rules t left closes text) (s.readLevel g n closes text) := by
  unfold readLevel
  split
  · next hne => subst hne; exact .ok ⟨.done, rfl⟩
  · next hne =>
    refine (readSegment_answers s g n closes text).bind (fun _ _ ⟨_, ho, hb⟩ => .here hne ho hb) ?_
    rintro ⟨r, hr⟩ ⟨hsr, hc⟩
    dsimp only at hsr hc ⊢
    split
    · next closing hs => exact .ok ⟨hsr.level_of_swallowed hne hs, hc⟩
    · next hs =>
      have := hr.2 hne hs
      refine (readLevel_answers s g r.admitted closes r.rest).bind
        (fun _ _ => hsr.level_open hne hs) ?_
      rintro ⟨level, _⟩ ⟨hl, hcl⟩
      refine .ok ⟨hsr.level_cons hne hs hl, ?_⟩
      dsimp only [ScannedLevel.cons] at hcl ⊢
      simp only [Segment.count.counts]
      omega
termination_by (s.limits.depth - g.depth, text.length, 2)

end

/-- **A scan answers with the segments of the grammar, with the tag that the
grammar leaves open, or with a limit.** -/
theorem outline_answers (s : Scanner K) :
    s.Answers (OutlineRead s.rules s.source) (OutlineOpen s.rules s.source) s.outline := by
  unfold outline
  refine (s.readSegment_answers .start 0 noTag s.source).bind (fun _ _ => .inl) ?_
  rintro ⟨first, hfl⟩ ⟨hf, -⟩
  dsimp only at hf hfl ⊢
  have hs1 := hf.swallowed_noTag
  split
  · next hrest => rw [hrest] at hf; exact .ok (.single hf)
  · next hrest =>
    -- something is left after the first segment, so the source is not empty
    have hne : s.source ≠ [] := by
      intro h0
      rw [h0] at hfl
      exact hrest (List.eq_nil_of_length_eq_zero (Nat.le_zero.1 hfl.1))
    refine (s.readSegment_answers .start first.admitted noTag first.rest).bind
      (fun _ _ ⟨_, ho, hb⟩ => .inr (hf.level_open hne hs1 (.here hrest ho hb))) ?_
    rintro ⟨second, _⟩ ⟨h2, -⟩
    dsimp only at h2 ⊢
    have hs2 := h2.swallowed_noTag
    refine (s.grant_answers second.admitted).bind (fun _ _ => False.elim) ?_
    rintro _ rfl
    refine (s.readLevel_answers .start (second.admitted + 1) noTag second.rest).bind
      (fun _ _ hb => .inr (hf.level_open hne hs1 (h2.level_open hrest hs2 hb))) ?_
    rintro ⟨level, _⟩ ⟨hl, -⟩
    obtain ⟨hc, hr⟩ := hl.closing_noTag
    dsimp only at hl hc hr
    rw [hc, hr] at hl
    exact .ok (.series hf hrest h2 hl)

end Scanner

end Bracketry
