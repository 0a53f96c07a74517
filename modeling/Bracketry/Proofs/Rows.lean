import Bracketry.Proofs.Agreement

/-!
# Reading a level by positions

A level is read token by token. The invariant is that its group stands where it was admitted, and
that the last token leaves what is left of the source to the level.

* `Scanner.Going`: the invariant. `Going.next`: it is kept.
* `Scanner.runs_goOn`: **a level is read** as `levelAt` says.
-/

namespace Bracketry

open Segment (spanAt)

variable {K : Type}

/-- A level that ended, with the token that stands for it. -/
def Level.ended (l : Level) (token : Nat) (swallowed : Option Span) : Level :=
  { l with token := some token, swallowed := swallowed }

namespace Token

/-- A group takes in children one after the other. -/
def takeIn (t : Token K) (children : List Child) : Token K :=
  children.foldl (fun t c => t.attach c.id c.span c.emptyLiteral) t

/-- A group takes in a segment that starts at `start` and whose token is that of `id`. -/
def takeSegment (t : Token K) (id start : Nat) (s : Segment K) : Token K :=
  t.attach id ⟨start, start + s.bytes⟩ s.isEmptyLiteral

variable (t : Token K) (id start : Nat) (s : Segment K)

@[simp] theorem parent_takeSegment : (t.takeSegment id start s).parent = t.parent := parent_attach ..

@[simp] theorem isGroup_takeSegment : (t.takeSegment id start s).isGroup = t.isGroup :=
  isGroup_attach ..

end Token

namespace Scanner

open Walk

/-- **A level is being read:** its group was admitted, and its last token leaves the text at `start`
to it. -/
structure Going (s : Scanner K) (tokens : List (Token K)) (group last : Nat) (gt : Token K)
    (start : Nat) (text : Text) : Prop where
  group : tokens[group]? = some gt
  isGroup : gt.isGroup = true
  last : ∃ t, tokens[last]? = some t ∧ t.rest = some (s.after start) ∧ t.swallowed = none
  left : Text.Left s.source start text

variable {s : Scanner K} {tokens : List (Token K)} {group last current start : Nat} {gt : Token K}
  {text rest : Text} {seg : Segment K}

/-- The tokens when a segment of a level was read and its group took it in. -/
def took (s : Scanner K) (tokens : List (Token K)) (group : Nat) (gt : Token K) (start : Nat)
    (seg : Segment K) : List (Token K) :=
  tokens.set group (gt.takeSegment tokens.length start seg) ++
    (seg.courses s.layout gt.parent start tokens.length).map Course.token

theorem length_took : (s.took tokens group gt start seg).length = tokens.length + seg.count := by
  rw [took, List.length_append, List.length_set, List.length_map, Segment.length_courses]

theorem getElem?_took (group : Nat) (gt : Token K) (start : Nat) :
    (s.took tokens group gt start seg)[tokens.length]? =
      some (seg.own s.layout gt.parent start (tokens.length + 1)).token := by
  unfold took Segment.courses
  rw [List.getElem?_append_right (by simp)]
  simp

theorem getElem?_took_group (h : tokens[group]? = some gt) (start : Nat) :
    (s.took tokens group gt start seg)[group]? =
      some (gt.takeSegment tokens.length start seg) := by
  have hset := getElem?_set_of_getElem? (gt.takeSegment tokens.length start seg) h
  unfold took
  rw [List.getElem?_append_left (List.getElem?_eq_some_iff.1 hset).1]
  exact hset

theorem Going.variant_ne (h : s.Going tokens group last gt start text) (index : Nat) :
    gt.variant ≠ .tag index := by
  intro hv
  have hgroup := h.isGroup
  unfold Token.isGroup at hgroup
  rw [hv] at hgroup
  cases hgroup

/-- The level goes on behind a segment that leaves it what is behind. -/
theorem Going.next (h : s.Going tokens group last gt start text) (hs : seg.swallowed = none)
    (htext : seg.text ++ rest = text) :
    s.Going (s.took tokens group gt start seg) group tokens.length
      (gt.takeSegment tokens.length start seg) (start + seg.bytes) rest := by
  refine ⟨getElem?_took_group h.group start, ?_, ⟨_, getElem?_took group gt start, ?_, ?_⟩, ?_⟩
  · rw [Token.isGroup_takeSegment]
    exact h.isGroup
  · exact Segment.rest_own _ _ _ _ _ hs
  · rw [Segment.swallowed_own, hs]
    rfl
  · have hleft := h.left
    rw [← htext] at hleft
    rw [← Segment.bytes_text]
    exact hleft.skip

/-- What a level answers of which the next token is that of `start`. -/
def goesOn (s : Scanner K) (level : Level) (tokens : List (Token K)) (group : Nat) (gt : Token K)
    (start : Nat) (r : ScannedLevel K) : (Nat × Level) × List (Token K) :=
  ((group, level.ended group (r.closing.map (spanAt (start + Segment.bytes.total r.segments)))),
    tokens.set group (gt.takeIn (Segment.asChildren start tokens.length r.segments)) ++
      (Segment.inner.row s.layout gt.parent start tokens.length r.segments).map Course.token)

theorem goesOn_nil (level : Level) (hgroup : tokens[group]? = some gt) (closing : Option Text)
    (rest : Text) (n : Nat) :
    s.goesOn level tokens group gt start ⟨[], closing, rest, n⟩ =
      ((group, level.ended group (closing.map (spanAt start))), tokens) := by
  obtain ⟨hlt, heq⟩ := List.getElem?_eq_some_iff.1 hgroup
  have hset : tokens.set group gt = tokens := by
    rw [← heq]
    exact List.set_getElem_self hlt
  simp [goesOn, Segment.asChildren, Segment.inner.row, Segment.bytes.total, Token.takeIn, hset]

theorem goesOn_cons (level : Level) (start : Nat) (seg : Segment K)
    (hgroup : tokens[group]? = some gt) (r : ScannedLevel K) :
    s.goesOn level (s.took tokens group gt start seg) group
        (gt.takeSegment tokens.length start seg) (start + seg.bytes) r =
      s.goesOn level tokens group gt start (r.cons seg) := by
  have hlt := (List.getElem?_eq_some_iff.1 hgroup).1
  unfold goesOn
  rw [length_took, Token.parent_takeSegment, took, List.set_append_left _ _ (by simpa using hlt),
    List.set_set]
  simp only [ScannedLevel.cons, Segment.bytes.total, Segment.row_cons, Segment.asChildren,
    List.map_append, List.append_assoc, Nat.add_assoc]
  rfl

/-- A group is the group of its level. -/
theorem runs_grouped (level : Level) {t : Token K} (h : tokens[current]? = some t)
    (ht : t.isGroup = true) :
    (s.grouped level current).Runs s.source tokens (.ok (current, tokens)) := by
  unfold grouped
  refine .andThen (runs_token h) ?_
  rw [if_pos ht]
  exact .pure _

/-- The group of a level takes in a segment that was read. -/
theorem Going.runs_took {α : Type} (level : Level) {next : Nat → Walk K α}
    {answer : Except Error (α × List (Token K))} (h : s.Going tokens group last gt start text)
    (hnext : (next group).Runs s.source (s.took tokens group gt start seg) answer) :
    (s.grouped level group >>= fun group => append group tokens.length >>= fun _ => next group).Runs
      s.source (tokens ++ (seg.courses s.layout gt.parent start tokens.length).map Course.token)
      answer := by
  have hlt := (List.getElem?_eq_some_iff.1 h.group).1
  have hgroup : (tokens ++ (seg.courses s.layout gt.parent start tokens.length).map
      Course.token)[group]? = some gt := by
    rw [List.getElem?_append_left hlt]
    exact h.group
  have hchild : (tokens ++ (seg.courses s.layout gt.parent start tokens.length).map
      Course.token)[tokens.length]? =
      some (seg.own s.layout gt.parent start (tokens.length + 1)).token := by
    unfold Segment.courses
    simp
  have happend := runs_append (s := s) hgroup hchild (Segment.span_own ..) (Segment.emptyLiteral_own ..)
  rw [List.set_append_left _ _ hlt] at happend
  exact .andThen (runs_grouped level hgroup h.isGroup) (.andThen happend hnext)

/-- Less is left behind a segment that moves on. -/
theorem length_after_lt (hleft : Text.Left s.source start text) (htext : seg.text ++ rest = text)
    (hlt : rest.length < text.length) :
    (s.after (start + seg.bytes)).length < (s.after start).length := by
  have hne : seg.text ≠ [] := by
    intro hnil
    rw [hnil, List.nil_append] at htext
    rw [htext] at hlt
    exact Nat.lt_irrefl _ hlt
  have hpos := Text.bytes_pos hne
  have hstop := hleft.stop_eq
  rw [Segment.bytes_text] at hpos
  rw [← htext, Text.bytes_append, Segment.bytes_text] at hstop
  rw [length_after, length_after]
  omega

variable [DecidableEq K] [Taxonomy K] {g : Gauge} {room : Nat} {level : Level}
  {closes : Text → Option Nat}

/-- A level ends where its last token leaves nothing to it. -/
theorem runs_goOn_end (s : Scanner K) (g : Gauge) (level : Level) (current room : Nat) {t : Token K}
    {rest : Span} (ht : tokens[last]? = some t)
    (hrest : t.rest = some rest) (hempty : rest.isEmpty = true) :
    (s.goOn g level current last room).Runs s.source tokens
      (.ok ((current, level.ended current t.swallowed), tokens)) := by
  unfold goOn
  refine .andThen (runs_token ht) ?_
  rw [hrest, Option.filter_some]
  simp only [hempty, Bool.not_true, Bool.false_eq_true, if_false]
  exact .pure _

/-- A level goes on with a segment where its last token leaves something to it. -/
theorem runs_goOn_next {t ct : Token K}
    {next : Scanned K → Except Error ((Nat × Level) × List (Token K))} (hsane : s.Sane)
    (hr : s.ReadsTags g) (hencl : Enclosed s.rules s.source tokens ct.parent closes)
    (hcurrent : tokens[current]? = some ct)
    (ht : tokens[last]? = some t) (hrest : t.rest = some (s.after start))
    (hleft : Text.Left s.source start text) (hne : text ≠ [])
    (hroom : (s.after start).length < room)
    (hnext : ∀ r, s.segmentAt g tokens.length closes text = .ok r →
      (s.grouped level current >>= fun group =>
        append group tokens.length >>= fun _ =>
          s.goOn g level group tokens.length (s.after start).length).Runs s.source
        (tokens ++ (r.segment.courses s.layout ct.parent start tokens.length).map Course.token)
        (next r)) :
    (s.goOn g level current last room).Runs s.source tokens
      (s.segmentAt g tokens.length closes text >>= next) := by
  have hlen := hleft.stop_eq
  have hpos := Text.bytes_pos hne
  have hempty : (s.after start).isEmpty = false := by
    simp only [Span.isEmpty, Span.length, beq_eq_false_iff_ne]
    omega
  unfold goOn
  refine .andThen (runs_token ht) ?_
  rw [hrest, Option.filter_some]
  simp only [hempty, Bool.not_false, if_true]
  rw [if_pos hroom]
  refine .andThen (runs_token hcurrent) ?_
  exact runs_segment hsane hr hencl hleft hnext

/-- A level whose last segment swallows the close delimiter ends with it. -/
theorem Going.runs_last {closing : Text} (h : s.Going tokens group last gt start text)
    (hs : seg.swallowed = some closing) (rest : Text) (n : Nat) :
    (s.goOn g level group tokens.length room).Runs s.source (s.took tokens group gt start seg)
      (.ok (s.goesOn level tokens group gt start ⟨[seg], some closing, rest, n⟩)) := by
  have hnothing := Segment.rest_own_swallowed s.layout gt.parent start (tokens.length + 1) _ hs
  have hend := s.runs_goOn_end g level group room (getElem?_took group gt start) hnothing
    (by simp [Span.isEmpty])
  have hcons := goesOn_cons (s := s) level start seg h.group ⟨[], some closing, rest, n⟩
  rw [goesOn_nil level (getElem?_took_group h.group start)] at hcons
  rw [Segment.swallowed_own, hs] at hend
  rw [ScannedLevel.cons] at hcons
  rw [← hcons]
  exact hend

/-- **A level is read** behind its last token. -/
theorem runs_goOn (level : Level) (hsane : s.Sane) (hr : s.ReadsTags g)
    (hencl : Enclosed s.rules s.source tokens gt.parent closes)
    (h : s.Going tokens group last gt start text) (hroom : (s.after start).length < room) :
    (s.goOn g level group last room).Runs s.source tokens
      ((s.levelAt g tokens.length closes text).map (s.goesOn level tokens group gt start)) := by
  induction hn : text.length using Nat.strong_induction_on
    generalizing tokens last gt start text room with
  | _ n ih =>
  obtain ⟨t, ht, hrest, hswallowed⟩ := h.last
  by_cases hne : text = []
  · subst hne
    have hstop := h.left.stop_eq
    rw [Text.bytes_nil] at hstop
    have hempty : (s.after start).isEmpty = true := by
      simp only [Span.isEmpty, Span.length, beq_iff_eq]
      omega
    have hend := s.runs_goOn_end g level group room ht hrest hempty
    rw [levelAt_nil, Except.map, goesOn_nil level h.group]
    rw [hswallowed] at hend
    exact hend
  · rw [levelAt_of_ne hne, map_bind_eq fun _ => rfl]
    refine runs_goOn_next hsane hr hencl h.group ht hrest h.left hne hroom ?_
    intro r hseg
    refine h.runs_took level ?_
    cases hs : r.segment.swallowed with
    | some closing => exact h.runs_last hs r.rest r.admitted
    | none =>
      obtain ⟨hread, hadmitted⟩ := segmentRead_of_segmentAt hseg
      have hlt := length_lt_of_segmentAt hseg hne hs
      have htext := hread.text_eq
      rw [hs, Option.getD_none, List.append_nil] at htext
      have hencl' : Enclosed s.rules s.source (s.took tokens group gt start r.segment)
          (gt.takeSegment tokens.length start r.segment).parent closes := by
        rw [Token.parent_takeSegment]
        exact (hencl.set _ h.group h.variant_ne).append _
      have hrun := ih _ (hn ▸ hlt) hencl' (h.next hs htext) (length_after_lt h.left htext hlt) rfl
      rw [length_took, ← hadmitted] at hrun
      have hanswer : (s.levelAt g r.admitted closes r.rest >>= fun level =>
            .ok (level.cons r.segment)).map (s.goesOn level tokens group gt start) =
          (s.levelAt g r.admitted closes r.rest).map (s.goesOn level
            (s.took tokens group gt start r.segment) group
            (gt.takeSegment tokens.length start r.segment) (start + r.segment.bytes)) := by
        cases s.levelAt g r.admitted closes r.rest with
        | error e => rfl
        | ok level => exact congrArg Except.ok (goesOn_cons _ _ _ h.group level).symm
      dsimp only
      rw [hanswer]
      exact hrun

end Scanner

end Bracketry
