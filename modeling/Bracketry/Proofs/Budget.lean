import Bracketry.Proofs.Sites

/-!
# What a scan takes

How deep a source is delegated and how many tokens it has is settled by the rules alone. A
scan only asks on its way whether its bounds leave room for that. Where they do, it answers
as it would without bounds, and where they do not, it stops one step beyond a bound.

* `Limits.Needs`: a run that takes a depth and a number of tokens under given bounds.
* `Scanner.tagAt_of_opens`, `Scanner.levelAt_of_ne`: the scan as equations.
* `Scanner.needs_level`, `Scanner.needs_tag_level`: what the parts of a level and of a tag
  take, the whole takes.
-/

namespace Bracketry

variable {K α β : Type}

/-! ## Room under bounds -/

namespace Limits

/-- The bounds leave room for a depth and for a number of tokens. -/
structure Room (l : Limits) (depth tokens : Nat) : Prop where
  depth_le : depth ≤ l.depth
  tokens_le : tokens ≤ l.tokens ∨ unbounded ≤ l.tokens

/-- The errors one step beyond the bounds, for a depth and a number of tokens that exceed
them. -/
inductive Stops (l : Limits) (depth tokens : Nat) : Error → Prop
  | tooDeep : l.depth < depth → Stops l depth tokens (.tooDeep (l.depth + 1) l.depth)
  | tooMany : l.tokens < tokens → l.tokens < unbounded →
      Stops l depth tokens (.tooMany (l.tokens + 1) l.tokens)

/-- A run takes a depth and a number of tokens: where the bounds leave room for them, it has
the given answer, else it stops one step beyond a bound. -/
structure Needs (l : Limits) (depth tokens : Nat) (answer run : Except Error α) : Prop where
  room : l.Room depth tokens → run = answer
  full : ¬l.Room depth tokens → ∃ e, l.Stops depth tokens e ∧ run = .error e

variable {l : Limits} {depth depth' tokens tokens' : Nat}

theorem Room.mono (h : l.Room depth' tokens') (hd : depth ≤ depth') (ht : tokens ≤ tokens') :
    l.Room depth tokens := by
  have htokens := h.tokens_le
  exact ⟨Nat.le_trans hd h.depth_le, by omega⟩

/-- Room for two depths is room for the greater of them. -/
theorem Room.max (h : l.Room depth tokens') (h' : l.Room depth' tokens) :
    l.Room (max depth depth') tokens :=
  ⟨Nat.max_le.2 ⟨h.depth_le, h'.depth_le⟩, h'.tokens_le⟩

theorem Stops.mono {e : Error} (h : l.Stops depth tokens e) (hd : depth ≤ depth')
    (ht : tokens ≤ tokens') : l.Stops depth' tokens' e := by
  cases h with
  | tooDeep hlt => exact .tooDeep (Nat.lt_of_lt_of_le hlt hd)
  | tooMany hlt hb => exact .tooMany (Nat.lt_of_lt_of_le hlt ht) hb

theorem Stops.isLimit {e : Error} (h : l.Stops depth tokens e) : e.IsLimit := by
  cases h <;> trivial

/-- Where there is room, an answer takes nothing more. -/
theorem Room.needs (h : l.Room depth tokens) (answer : Except Error α) :
    l.Needs depth tokens answer answer :=
  ⟨fun _ => rfl, fun hn => absurd h hn⟩

/-- Admitting a token takes room for one more. -/
theorem Room.needs_grant (h : l.Room depth tokens) :
    l.Needs depth (tokens + 1) (.ok (tokens + 1)) (l.grant tokens) := by
  have hheld := h.tokens_le
  unfold grant
  split
  · next hlt =>
    refine ⟨fun hr => ?_, fun _ => ?_⟩
    · have hmore := hr.tokens_le
      omega
    · have heq : min (tokens + 1) unbounded = l.tokens + 1 := by omega
      rw [heq]
      exact ⟨_, .tooMany (by omega) (by omega), rfl⟩
  · next hlt => exact (Room.mk h.depth_le (by omega)).needs _

/-- Going one level deeper takes room for that. -/
theorem Room.needs_check {g : Gauge} (h : l.Room g.depth tokens) :
    l.Needs g.enter.depth tokens (.ok ()) (g.enter.check l.depth) := by
  have hle := h.depth_le
  have henter : g.enter.depth = g.depth + 1 := rfl
  unfold Gauge.check
  split
  · next hlt =>
    have hdepth : g.enter.depth = l.depth + 1 := by omega
    refine ⟨fun hr => ?_, fun _ => ⟨_, .tooDeep hlt, by rw [hdepth]⟩⟩
    have hroom := hr.depth_le
    omega
  · next hlt => exact (Room.mk (by omega) h.tokens_le).needs _

namespace Needs

variable {answer run : Except Error α} {first : Except Error β} {next : β → Except Error α}

/-- A run takes no more depth than there was room for anyway. -/
theorem widen (h : l.Needs depth tokens answer run) (hd : depth ≤ depth')
    (hroom : l.Room depth tokens → l.Room depth' tokens) : l.Needs depth' tokens answer run := by
  refine ⟨fun hr => h.room (hr.mono hd (Nat.le_refl _)), fun hn => ?_⟩
  obtain ⟨e, hstops, hrun⟩ := h.full fun hr => hn (hroom hr)
  exact ⟨e, hstops.mono hd (Nat.le_refl _), hrun⟩

/-- A run goes on with what it found, if there was room for that. -/
theorem bind {a : β} (h : l.Needs depth tokens (.ok a) first) (hd : depth ≤ depth')
    (ht : tokens ≤ tokens')
    (hnext : l.Room depth tokens → l.Needs depth' tokens' answer (next a)) :
    l.Needs depth' tokens' answer (first >>= next) := by
  by_cases hroom : l.Room depth tokens
  · rw [h.room hroom]
    exact hnext hroom
  · obtain ⟨e, hstops, hrun⟩ := h.full hroom
    rw [hrun]
    exact ⟨fun hr => absurd (hr.mono hd ht) hroom, fun _ => ⟨e, hstops.mono hd ht, rfl⟩⟩

/-- What follows a run without a look at the bounds takes nothing. -/
theorem bind_free {v : Except Error β} (h : l.Needs depth tokens v first)
    (next : β → Except Error α) : l.Needs depth tokens (v >>= next) (first >>= next) := by
  refine ⟨fun hr => by rw [h.room hr], fun hn => ?_⟩
  obtain ⟨e, hstops, hrun⟩ := h.full hn
  exact ⟨e, hstops, by rw [hrun]; rfl⟩

/-- What follows a run that fails is not reached. -/
theorem bind_error {e : Error} (h : l.Needs depth tokens (.error e) first) :
    l.Needs depth tokens (.error e) (first >>= next) :=
  h.bind_free next

end Needs

end Limits

/-! ## Nesting -/

namespace Segment

/-- How deep the tags in a segment are nested in it. -/
def nesting : Segment K → Nat
  | .literal _ _ => 0
  | .tag _ _ _ => 0
  | .nest _ _ first siblings _ => max first.nesting (deepest siblings) + 1
where
  /-- The deepest nesting of segments in a row. -/
  deepest : List (Segment K) → Nat
    | [] => 0
    | s :: rest => max s.nesting (deepest rest)

theorem count_pos (s : Segment K) : 0 < s.count := by
  cases s <;> simp only [count] <;> omega

end Segment

/-! ## The scan as equations -/

variable [DecidableEq K] [Taxonomy K]

section Results

variable {ε β' : Type} {p : α → Prop}

theorem ok_bind_eq (a : α) (next : α → Except ε β) : (.ok a >>= next) = next a := rfl

theorem bind_val_eq {run : Except ε { a // p a }} {next : { a // p a } → Except ε β}
    {next' : α → Except ε β} (h : ∀ a, next a = next' a.val) :
    (run >>= next) = (run.map Subtype.val >>= next') := by
  cases run with
  | error e => rfl
  | ok a => exact h a

theorem map_bind_eq {run : Except ε α} {next : α → Except ε β} {next' : α → Except ε β'}
    {f : β → β'} (h : ∀ a, (next a).map f = next' a) :
    (run >>= next).map f = (run >>= next') := by
  cases run with
  | error e => rfl
  | ok a => exact h a

theorem map_bind_val_eq {run : Except ε { a // p a }} {next : { a // p a } → Except ε β}
    {next' : α → Except ε β'} {f : β → β'} (h : ∀ a, (next a).map f = next' a.val) :
    (run >>= next).map f = (run.map Subtype.val >>= next') :=
  (map_bind_eq fun _ => rfl).trans (bind_val_eq h)

end Results

namespace Scanner

/-- The reading of a tag. -/
def tagAt (s : Scanner K) (g : Gauge) (n : Nat) (o : Opening K) (text : Text) :
    Except Error (Scanned K) :=
  (s.readTag g n o text).map Subtype.val

/-- The reading of a segment. -/
def segmentAt (s : Scanner K) (g : Gauge) (n : Nat) (closes : Text → Option Nat) (text : Text) :
    Except Error (Scanned K) :=
  (s.readSegment g n closes text).map Subtype.val

/-- The reading of a level. -/
def levelAt (s : Scanner K) (g : Gauge) (n : Nat) (closes : Text → Option Nat) (text : Text) :
    Except Error (ScannedLevel K) :=
  (s.readLevel g n closes text).map Subtype.val

/-- What the tag at the start of a text answers when the level inside it has been read. -/
def around (s : Scanner K) (t : Tag K) (text seed : Text) (first : Segment K)
    (level : ScannedLevel K) : Except Error (Scanned K) :=
  match level.closing with
  | none => .error (t.unclosed (s.offset text))
  | some closing => .ok ⟨.nest t seed first level.segments closing, level.rest, level.admitted⟩

variable {s : Scanner K} {g : Gauge} {n : Nat} {o inner : Opening K} {closes : Text → Option Nat}
  {text seed mid : Text}

theorem tagAt_of_closed {content closing rest : Text}
    (h : o.stop s.rules text = .closed content closing rest) :
    s.tagAt g n o text = .ok ⟨.tag (o.tag text) content closing, rest, n⟩ := by
  unfold Opening.stop at h
  unfold tagAt readTag
  dsimp only
  split
  · next hc => rw [h] at hc; cases hc; rfl
  · next hc => rw [h] at hc; cases hc
  · next hc => rw [h] at hc; cases hc

theorem tagAt_of_missing (h : o.stop s.rules text = .missing) :
    s.tagAt g n o text = .error ((o.tag text).unclosed (s.offset text)) := by
  unfold Opening.stop at h
  unfold tagAt readTag
  dsimp only
  split
  · next hc => rw [h] at hc; cases hc
  · rfl
  · next hc => rw [h] at hc; cases hc

/-- A tag with tags inside goes one level deeper, where it admits the first of them, its
seed and a group before anything else is read. -/
theorem tagAt_of_opens (h : o.stop s.rules text = .opens seed inner mid) :
    s.tagAt g n o text = (do
      g.enter.check s.limits.depth
      let n ← s.limits.grant n
      let n ← s.limits.grant n
      let n ← s.limits.grant n
      let first ← s.tagAt g.enter n inner mid
      let level ← s.levelAt g.enter first.admitted (o.tag text).closes first.rest
      s.around (o.tag text) text seed first.segment level) := by
  unfold Opening.stop at h
  rw [tagAt, readTag]
  dsimp only
  split
  · next hc => rw [h] at hc; cases hc
  · next hc => rw [h] at hc; cases hc
  · next hc =>
    rw [h] at hc
    cases hc
    split
    · next hg => rw [hg]; rfl
    · next hg =>
      rw [hg, Ruleset.rule_of_opening (Opening.text_of_opens h).2, ok_bind_eq, ok_bind_eq]
      refine map_bind_eq fun n => map_bind_eq fun n => map_bind_eq fun n => ?_
      refine map_bind_val_eq fun first => map_bind_val_eq fun level => ?_
      unfold around
      cases level.val.closing <;> rfl

theorem segmentAt_of_opening (h : s.rules.opening? text = some o) :
    s.segmentAt g n closes text = (do
      let n ← s.limits.grant n
      s.tagAt g n o text) := by
  rw [segmentAt, readSegment]
  split
  · next o' ho =>
    rw [h] at ho
    cases ho
    rw [Ruleset.rule_of_opening h, ok_bind_eq]
    refine map_bind_eq fun n => ?_
    rw [← bind_pure (s.tagAt g n o text)]
    exact map_bind_val_eq fun _ => rfl
  · next ho => rw [h] at ho; cases ho

theorem segmentAt_of_literal {plain rest : Text} {swallowed : Option Text}
    (h : SegmentRead s.rules closes text (.literal plain swallowed) rest) :
    s.segmentAt g n closes text = (do
      let n ← s.limits.grant n
      .ok ⟨.literal plain swallowed, rest, n⟩) := by
  rw [segmentAt, readSegment]
  cases h with
  | tag _ ht => cases ht
  | swallows hn hl =>
    split
    · next ho => rw [hn] at ho; cases ho
    · refine map_bind_eq fun n => ?_
      split
      · next hs => rw [hl] at hs; cases hs; rfl
      · next hs => rw [hl] at hs; cases hs
  | literal hn hl =>
    split
    · next ho => rw [hn] at ho; cases ho
    · refine map_bind_eq fun n => ?_
      split
      · next hs => rw [hl] at hs; cases hs
      · next hs => rw [hl] at hs; cases hs; rfl

/-- A segment moves its level on unless it ends it. -/
theorem length_lt_of_segmentAt {r : Scanned K} (h : s.segmentAt g n closes text = .ok r)
    (hne : text ≠ []) (hsw : r.segment.swallowed = none) : r.rest.length < text.length := by
  unfold segmentAt at h
  cases hr : s.readSegment g n closes text with
  | error e => rw [hr] at h; cases h
  | ok a =>
    rw [hr] at h
    cases h
    exact a.property.2 hne hsw

theorem levelAt_nil : s.levelAt g n closes [] = .ok ⟨[], none, [], n⟩ := by
  unfold levelAt readLevel
  rw [dif_pos rfl]
  rfl

theorem levelAt_of_ne (h : text ≠ []) :
    s.levelAt g n closes text = (do
      let r ← s.segmentAt g n closes text
      match r.segment.swallowed with
      | some closing => .ok ⟨[r.segment], some closing, r.rest, r.admitted⟩
      | none =>
        let level ← s.levelAt g r.admitted closes r.rest
        .ok (level.cons r.segment)) := by
  rw [levelAt, readLevel, dif_neg h]
  refine map_bind_val_eq ?_
  rintro ⟨r, hr⟩
  dsimp only
  split
  · next hc => rw [hc]; rfl
  · next hc =>
    simp only [hc]
    exact map_bind_val_eq fun _ => rfl

theorem outline_eq (s : Scanner K) :
    s.outline = (do
      let first ← s.segmentAt .start 0 noTag s.source
      if first.rest = [] then .ok (.single first.segment)
      else
        let second ← s.segmentAt .start first.admitted noTag first.rest
        let n ← s.limits.grant second.admitted
        let level ← s.levelAt .start n noTag second.rest
        .ok (.series first.segment second.segment level.segments)) := by
  refine bind_val_eq fun first => ?_
  by_cases hrest : first.val.rest = []
  · rw [if_pos hrest]
    exact if_pos hrest
  · rw [if_neg hrest]
    refine (if_neg hrest).trans ?_
    refine bind_val_eq ?_
    rintro ⟨second, _⟩
    exact bind_congr fun n => bind_val_eq fun _ => rfl

end Scanner

/-! ## Steps under bounds -/

namespace Scanner

section

variable {rules : Ruleset K} {l : Limits} {source : Text} {g : Gauge} {n m k depth : Nat}
  {closes : Text → Option Nat} {text mid rest seed : Text} {o inner : Opening K} {r : Segment K}

/-- A segment that a rule opens takes one token and what its tag takes. -/
theorem needs_segment {v : Except Error (Scanned K)} (ho : rules.opening? text = some o)
    (hroom : l.Room g.depth n) (hd : g.depth ≤ depth) (hm : n + 1 ≤ m)
    (h : l.Room g.depth (n + 1) →
      l.Needs depth m v ((Scanner.mk rules l source).tagAt g (n + 1) o text)) :
    l.Needs depth m v ((Scanner.mk rules l source).segmentAt g n closes text) := by
  rw [segmentAt_of_opening ho]
  exact hroom.needs_grant.bind hd hm h

/-- A literal takes one token. -/
theorem needs_literal (source : Text) {plain : Text} {swallowed : Option Text}
    (h : SegmentRead rules closes text (.literal plain swallowed) rest)
    (hroom : l.Room g.depth n) :
    l.Needs g.depth (n + 1) (.ok ⟨.literal plain swallowed, rest, n + 1⟩)
      ((Scanner.mk rules l source).segmentAt g n closes text) := by
  rw [segmentAt_of_literal h]
  exact hroom.needs_grant.bind (Nat.le_refl _) (Nat.le_refl _) fun h1 => h1.needs _

/-- A level that goes on behind its first segment takes what both parts take. -/
theorem needs_level {v : Except Error (ScannedLevel K)} {deep : Nat} (hne : text ≠ [])
    (hsw : r.swallowed = none) (hm : k ≤ m)
    (hs : l.Needs (g.depth + r.nesting) k (.ok ⟨r, mid, k⟩)
      ((Scanner.mk rules l source).segmentAt g n closes text))
    (hl : l.Room g.depth k →
      l.Needs (g.depth + deep) m v ((Scanner.mk rules l source).levelAt g k closes mid)) :
    l.Needs (g.depth + max r.nesting deep) m (v >>= fun level => .ok (level.cons r))
      ((Scanner.mk rules l source).levelAt g n closes text) := by
  rw [levelAt_of_ne hne, ← Nat.add_max_add_left]
  refine hs.bind (Nat.le_max_left _ _) hm fun h1 => ?_
  dsimp only
  rw [hsw]
  have hlevel := hl (h1.mono (Nat.le_add_right _ _) (Nat.le_refl _))
  exact (hlevel.widen (Nat.le_max_right _ _) h1.max).bind_free _

/-- A level that ends with its first segment takes what that takes. -/
theorem needs_last {closing : Text} (hne : text ≠ []) (hsw : r.swallowed = some closing)
    (hs : l.Needs depth m (.ok ⟨r, rest, m⟩)
      ((Scanner.mk rules l source).segmentAt g n closes text)) :
    l.Needs depth m (.ok ⟨[r], some closing, rest, m⟩)
      ((Scanner.mk rules l source).levelAt g n closes text) := by
  rw [levelAt_of_ne hne]
  refine hs.bind (Nat.le_refl _) (Nat.le_refl _) fun h1 => ?_
  dsimp only
  rw [hsw]
  exact h1.needs _

/-- A tag with tags inside takes one level and three tokens, and what is inside takes. -/
theorem needs_tag {v : Except Error (Scanned K)} (hs : o.stop rules text = .opens seed inner mid)
    (hroom : l.Room g.depth n) (hd : g.enter.depth ≤ depth) (hm : n + 3 ≤ m)
    (h : l.Room g.enter.depth (n + 3) → l.Needs depth m v (do
      let first ← (Scanner.mk rules l source).tagAt g.enter (n + 3) inner mid
      let level ← (Scanner.mk rules l source).levelAt g.enter first.admitted (o.tag text).closes
        first.rest
      (Scanner.mk rules l source).around (o.tag text) text seed first.segment level)) :
    l.Needs depth m v ((Scanner.mk rules l source).tagAt g n o text) := by
  rw [tagAt_of_opens hs]
  refine hroom.needs_check.bind hd (by omega) fun h0 => ?_
  refine h0.needs_grant.bind hd (by omega) fun h1 => ?_
  refine h1.needs_grant.bind hd (by omega) fun h2 => ?_
  exact h2.needs_grant.bind hd hm h

/-- A tag whose first part has been read takes what that and the level after it take. -/
theorem needs_tag_level {v : Except Error (ScannedLevel K)} {deep : Nat}
    (hs : o.stop rules text = .opens seed inner mid) (hroom : l.Room g.depth n) (hk : n + 3 ≤ k)
    (hm : k ≤ m)
    (hf : l.Room g.enter.depth (n + 3) → l.Needs (g.enter.depth + r.nesting) k
      (.ok ⟨r, rest, k⟩) ((Scanner.mk rules l source).tagAt g.enter (n + 3) inner mid))
    (hl : l.Room g.enter.depth k → l.Needs (g.enter.depth + deep) m v
      ((Scanner.mk rules l source).levelAt g.enter k (o.tag text).closes rest)) :
    l.Needs (g.depth + (max r.nesting deep + 1)) m
      (v >>= (Scanner.mk rules l source).around (o.tag text) text seed r)
      ((Scanner.mk rules l source).tagAt g n o text) := by
  have hdepth : g.depth + (max r.nesting deep + 1) =
      max (g.enter.depth + r.nesting) (g.enter.depth + deep) := by
    simp only [Gauge.enter]
    omega
  rw [hdepth]
  refine needs_tag hs hroom (by omega) (by omega) fun h0 => ?_
  refine (hf h0).bind (Nat.le_max_left _ _) hm fun h1 => ?_
  have hlevel := hl (h1.mono (Nat.le_add_right _ _) (Nat.le_refl _))
  exact (hlevel.widen (Nat.le_max_right _ _) h1.max).bind_free _

end

end Scanner

end Bracketry
