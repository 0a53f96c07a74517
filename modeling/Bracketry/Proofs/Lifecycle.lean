import Bracketry.InPlace.Token
import Bracketry.Template.Kind

/-!
# A token is closed once

A caller may call a token in any order and with any arguments, in place. A call is meant for some
states of the token. In these it succeeds, and in all others it fails and writes nothing.

* `Token.Regular.made_of_fits`: which calls succeed, and what they keep.
* `Token.one_shot`: **a token goes from unopened over opened to closed, whatever is called,** and
  what a closed token covers stays as it is.
-/

namespace Bracketry

/-- How far a token has come. -/
def State.rank : State → Nat
  | .unopened => 0
  | .opened => 1
  | .closed => 2

/-- Nothing comes after closed. -/
theorem State.eq_closed {s : State} (h : State.closed.rank ≤ s.rank) : s = .closed := by
  cases s with
  | closed => rfl
  | unopened => exact absurd h (by decide)
  | opened => exact absurd h (by decide)

namespace Token

open Calls (accepted after replay replay_append)

namespace Call

/-- The calls that close a token. -/
def closes : Call → Bool
  | .close _ _ => true
  | .yield _ => true
  | .absorb => true
  | _ => false

/-- The state that a call is meant for. -/
def Fits : Call → State → Prop
  | .begin, s => s = .unopened
  | .close closing force, s => s = .opened ∧ (closing.isSome = true ∨ force = true)
  | .yield _, s => s = .opened
  | .absorb, s => s ≠ .closed
  | _, _ => True

/-- The state that a call leads to. -/
def next : Call → State → State
  | .begin, _ => .opened
  | .close _ _, _ => .closed
  | .yield _, _ => .closed
  | .absorb, _ => .closed
  | _, s => s

variable {c : Call} {s : State}

theorem next_of_closes (h : c.closes = true) : c.next s = .closed := by
  cases c <;> first | rfl | cases h

/-- No call but a closing one leads to the end. -/
theorem next_ne_closed (h : c.closes = false) (hs : s ≠ .closed) : c.next s ≠ .closed := by
  cases c <;> simp_all [closes, next]

/-- No closing call is meant for a closed token. -/
theorem not_fits_closed (h : c.closes = true) : ¬c.Fits .closed := by
  cases c <;> simp_all [closes, Fits]

/-- A call in the state that it is meant for does not lead back. -/
theorem rank_le_next (h : c.Fits s) : s.rank ≤ (c.next s).rank := by
  cases c <;> cases s <;> simp_all [Fits, next, State.rank]

end Call

variable {K : Type}

/-! ## Regular tokens -/

/-- What the calls of a tag or a literal keep: it is no group, it knows its open delimiter, and
while it is open it knows its body. -/
structure Regular (t : Token K) : Prop where
  plain : t.isGroup = false
  opening : ∃ opening, t.opening = some opening
  body : t.state = .opened → ∃ body, t.body = some body

/-- Two tokens have the same spans and move their level on as far. -/
structure SameSpans (t t' : Token K) : Prop where
  opening : t'.opening = t.opening
  body : t'.body = t.body
  content : t'.content = t.content
  closing : t'.closing = t.closing
  rest : t'.rest = t.rest
  swallowed : t'.swallowed = t.swallowed
  span : t'.span = t.span
  length : t'.length = t.length

theorem SameSpans.refl (t : Token K) : t.SameSpans t := ⟨rfl, rfl, rfl, rfl, rfl, rfl, rfl, rfl⟩

theorem SameSpans.trans {t t' t'' : Token K} (h : t.SameSpans t') (h' : t'.SameSpans t'') :
    t.SameSpans t'' :=
  ⟨h'.opening.trans h.opening, h'.body.trans h.body, h'.content.trans h.content,
    h'.closing.trans h.closing, h'.rest.trans h.rest, h'.swallowed.trans h.swallowed,
    h'.span.trans h.span, h'.length.trans h.length⟩

namespace Regular

variable {t : Token K}

theorem tag (kind : K) (rule : Nat) (stream opening : Span) (parent : Option Nat) :
    (Token.tag kind rule stream opening parent).Regular :=
  ⟨rfl, ⟨opening, rfl⟩, fun h => nomatch h⟩

theorem literal (kind : K) (stream : Span) (parent : Option Nat) :
    (Token.literal kind stream parent).Regular :=
  ⟨rfl, ⟨.empty stream.start, rfl⟩, fun h => nomatch h⟩

/-- A tag or a literal takes in no children. -/
theorem attach_eq (h : t.Regular) (child : Nat) (span : Span) (emptyLiteral : Bool) :
    t.attach child span emptyLiteral = t := by
  have hplain := h.plain
  unfold isGroup at hplain
  unfold Token.attach
  cases hv : t.variant with
  | group children => rw [hv] at hplain; cases hplain
  | tag rule => cases emptyLiteral <;> rfl
  | literal swallowed => cases emptyLiteral <;> rfl

theorem finish (h : t.Regular) (content closing rest : Span) :
    (t.finish content closing rest).Regular :=
  ⟨h.plain, h.opening, fun hs => nomatch hs⟩

end Regular

variable [DecidableEq K] [Taxonomy K]

/-! ## One call -/

namespace Regular

variable {t : Token K}

theorem closable_eq (h : t.Regular) (hs : t.state = .opened) :
    ∃ body, t.closable = .ok body := by
  obtain ⟨body, hbody⟩ := h.body hs
  refine ⟨body, ?_⟩
  unfold Token.closable
  rw [hs, hbody]

/-- **A call in a state that it is meant for succeeds,** leads to the next state, and changes no
span of a closed token. -/
theorem made_of_fits (h : t.Regular) {c : Call} (hf : c.Fits t.state) :
    ∃ t', c.made t = .ok t' ∧ t'.Regular ∧ t'.state = c.next t.state ∧
      (t.state = .closed → t.SameSpans t') := by
  cases c with
  | begin =>
    have hs : t.state = .unopened := hf
    obtain ⟨opening, hopening⟩ := h.opening
    refine ⟨{ t with body := some ⟨opening.stop, t.stream.stop⟩, cursor := 0, state := .opened },
      ?_, ⟨h.plain, h.opening, fun _ => ⟨_, rfl⟩⟩, rfl, fun hc => ?_⟩
    · show t.begin = _
      unfold Token.begin
      rw [hs, hopening]
    · rw [hs] at hc
      cases hc
  | close closing force =>
    obtain ⟨hs, hgiven⟩ := hf
    obtain ⟨body, hbody⟩ := h.closable_eq hs
    have hclosed : ∀ a b c : Span, t.state = .closed → t.SameSpans (t.finish a b c) := by
      intro a b c hc
      rw [hs] at hc
      cases hc
    show ∃ t', t.close closing force = .ok t' ∧ _
    unfold Token.close
    rw [hbody]
    cases closing with
    | some closing => exact ⟨_, rfl, h.finish _ _ _, rfl, hclosed _ _ _⟩
    | none =>
      obtain rfl : force = true := hgiven.resolve_left (by simp)
      exact ⟨_, rfl, h.finish _ _ _, rfl, hclosed _ _ _⟩
  | yield closing =>
    have hs : t.state = .opened := hf
    obtain ⟨body, hbody⟩ := h.closable_eq hs
    have hclosed : ∀ t' : Token K, t.state = .closed → t.SameSpans t' := by
      intro t' hc
      rw [hs] at hc
      cases hc
    show ∃ t', t.yield closing = .ok t' ∧ _
    unfold Token.yield
    rw [hbody]
    cases hv : t.variant with
    | literal swallowed =>
      exact ⟨_, rfl, ⟨rfl, h.opening, fun hs => nomatch hs⟩, rfl, hclosed _⟩
    | tag rule => exact ⟨_, rfl, h.finish _ _ _, rfl, hclosed _⟩
    | group children => exact ⟨_, rfl, h.finish _ _ _, rfl, hclosed _⟩
  | absorb =>
    have hs : t.state ≠ .closed := hf
    refine ⟨({ t with body := some t.stream, cursor := t.stream.length } : Token K).finish t.stream
      (.empty t.stream.stop) (.empty t.stream.stop), ?_, ⟨h.plain, h.opening, fun hs => nomatch hs⟩,
      rfl, fun hc => absurd hc hs⟩
    show t.absorb = _
    unfold Token.absorb
    cases hst : t.state with
    | closed => exact absurd hst hs
    | unopened => rfl
    | opened => rfl
  | moveTo cursor =>
    exact ⟨t.moveTo cursor, rfl, ⟨h.plain, h.opening, h.body⟩, rfl,
      fun _ => ⟨rfl, rfl, rfl, rfl, rfl, rfl, rfl, rfl⟩⟩
  | attach child span emptyLiteral =>
    exact ⟨t, congrArg _ (h.attach_eq child span emptyLiteral), h, rfl, fun _ => .refl t⟩
  | delegate level =>
    exact ⟨t.delegate level, rfl, ⟨h.plain, h.opening, h.body⟩, rfl,
      fun _ => ⟨rfl, rfl, rfl, rfl, rfl, rfl, rfl, rfl⟩⟩
  | annotate extra =>
    exact ⟨t.annotate extra, rfl, ⟨h.plain, h.opening, h.body⟩, rfl,
      fun _ => ⟨rfl, rfl, rfl, rfl, rfl, rfl, rfl, rfl⟩⟩

/-- A token that is not open cannot be closed at its cursor. -/
theorem closable_of_ne (hs : t.state ≠ .opened) : ∃ e, t.closable = .error e := by
  unfold Token.closable
  cases hst : t.state with
  | opened => exact absurd hst hs
  | closed => exact ⟨_, rfl⟩
  | unopened => exact ⟨_, rfl⟩

/-- A call in any other state fails. -/
theorem made_of_not_fits (h : t.Regular) {c : Call} (hf : ¬c.Fits t.state) :
    ∃ e, c.made t = .error e := by
  cases c with
  | begin =>
    show ∃ e, t.begin = .error e
    unfold Token.begin
    cases hs : t.state with
    | unopened => exact absurd hs hf
    | opened => exact ⟨_, rfl⟩
    | closed => exact ⟨_, rfl⟩
  | close closing force =>
    show ∃ e, t.close closing force = .error e
    unfold Token.close
    by_cases hs : t.state = .opened
    · obtain ⟨body, hbody⟩ := h.closable_eq hs
      rw [hbody]
      -- open, so it is the delimiter that is missing
      cases closing with
      | some closing => exact absurd ⟨hs, .inl rfl⟩ hf
      | none =>
        cases force with
        | true => exact absurd ⟨hs, .inr rfl⟩ hf
        | false => exact ⟨_, rfl⟩
    · obtain ⟨e, he⟩ := closable_of_ne hs
      rw [he]
      exact ⟨e, rfl⟩
  | yield closing =>
    obtain ⟨e, he⟩ := closable_of_ne hf
    show ∃ e, t.yield closing = .error e
    unfold Token.yield
    rw [he]
    exact ⟨e, rfl⟩
  | absorb =>
    have hs : t.state = .closed := Classical.not_not.1 hf
    show ∃ e, t.absorb = .error e
    unfold Token.absorb
    rw [hs]
    exact ⟨_, rfl⟩
  | moveTo cursor => exact absurd trivial hf
  | attach child span emptyLiteral => exact absurd trivial hf
  | delegate level => exact absurd trivial hf
  | annotate extra => exact absurd trivial hf

/-- **What one call does to a regular token:** it succeeds exactly in the state that it is meant
for, and it fails without a trace. -/
theorem accepted_iff (h : t.Regular) (c : Call) : Calls.accepted c t = true ↔ c.Fits t.state := by
  rw [Calls.accepted_iff]
  show (∃ t', c.made t = .ok t') ↔ c.Fits t.state
  constructor
  · rintro ⟨t', ht'⟩
    by_cases hf : c.Fits t.state
    · exact hf
    · obtain ⟨e, he⟩ := h.made_of_not_fits hf
      rw [ht'] at he
      cases he
  · intro hf
    obtain ⟨t', ht', -⟩ := h.made_of_fits hf
    exact ⟨t', ht'⟩

/-- What every call keeps, whether it succeeds or not. -/
theorem after (h : t.Regular) (c : Call) :
    (Calls.after c t).Regular ∧
      (Calls.after c t).state = (if Calls.accepted c t then c.next t.state else t.state) ∧
      (t.state = .closed → t.SameSpans (Calls.after c t)) := by
  cases ha : Calls.accepted c t with
  | true =>
    obtain ⟨t', ht', hregular, hstate, hspans⟩ := h.made_of_fits ((h.accepted_iff c).1 ha)
    rw [Calls.after_of_ok ht']
    exact ⟨hregular, hstate, hspans⟩
  | false =>
    rw [Calls.after_of_not_accepted ha]
    exact ⟨h, rfl, fun _ => .refl t⟩

/-- One call does not lead back. -/
theorem rank_le_after (h : t.Regular) (c : Call) : t.state.rank ≤ (Calls.after c t).state.rank := by
  rw [(h.after c).2.1]
  split
  · next ha => exact Call.rank_le_next ((h.accepted_iff c).1 ha)
  · exact Nat.le_refl _

end Regular

/-! ## Calls in a row -/

/-- The number of calls in a row that closed the token. -/
def closings (t : Token K) : List Call → Nat
  | [] => 0
  | c :: rest => (if c.closes && accepted c t then 1 else 0) + closings (after c t) rest

namespace Regular

variable {t : Token K}

/-- **Calls in a row do not lead back,** and they leave the spans of a closed token alone. -/
theorem replay (h : t.Regular) (calls : List Call) :
    (Calls.replay t calls).Regular ∧ t.state.rank ≤ (Calls.replay t calls).state.rank ∧
      (t.state = .closed → t.SameSpans (Calls.replay t calls)) := by
  induction calls generalizing t with
  | nil => exact ⟨h, Nat.le_refl _, fun _ => .refl t⟩
  | cons c rest ih =>
    obtain ⟨hregular, hstate, hspans⟩ := h.after c
    obtain ⟨hregular', hrank, hspans'⟩ := ih hregular
    have hle := h.rank_le_after c
    refine ⟨hregular', Nat.le_trans hle hrank, fun hs => (hspans hs).trans (hspans' ?_)⟩
    rw [hs] at hle
    exact State.eq_closed hle

theorem replay_of_closed (h : t.Regular) (hs : t.state = .closed) (calls : List Call) :
    (Calls.replay t calls).state = .closed := by
  have hle := (h.replay calls).2.1
  rw [hs] at hle
  exact State.eq_closed hle

/-- **One call closes a token,** if the token is open before the calls and closed after them, and
none if not. -/
theorem closings_eq (h : t.Regular) (calls : List Call) :
    t.closings calls = if t.state ≠ .closed ∧ (Calls.replay t calls).state = .closed then 1 else 0 := by
  induction calls generalizing t with
  | nil => exact (if_neg fun hn => hn.1 hn.2).symm
  | cons c rest ih =>
    have hregular := (h.after c).1
    show (if c.closes && Calls.accepted c t then 1 else 0) + (Calls.after c t).closings rest =
      if t.state ≠ .closed ∧ (Calls.replay (Calls.after c t) rest).state = .closed then 1 else 0
    rw [ih hregular]
    by_cases hs : t.state = .closed
    · have hle := h.rank_le_after c
      rw [hs] at hle
      have hfirst : (c.closes && Calls.accepted c t) = false := by
        cases hc : c.closes with
        | false => rfl
        | true =>
          rw [Bool.true_and, Bool.eq_false_iff, ne_eq, h.accepted_iff, hs]
          exact Call.not_fits_closed hc
      simp [hs, hfirst, State.eq_closed hle]
    · cases hfirst : c.closes && Calls.accepted c t with
      | true =>
        -- this call closes the token, and it stays closed
        obtain ⟨hc, ha⟩ := Bool.and_eq_true_iff.1 hfirst
        have hclosed : (Calls.after c t).state = .closed := by
          rw [(h.after c).2.1, if_pos ha, Call.next_of_closes hc]
        simp [hs, hclosed, hregular.replay_of_closed hclosed]
      | false =>
        have hopen : (Calls.after c t).state ≠ .closed := by
          rw [(h.after c).2.1]
          split
          · next ha =>
            rw [ha, Bool.and_true] at hfirst
            exact Call.next_ne_closed hfirst hs
          · exact hs
        simp [hs, hopen]

end Regular

/-! ## One shot -/

/-- **A one-shot state machine,** whatever is called and with whatever arguments. -/
structure OneShot (t : Token K) : Prop where
  /-- The state only moves forward. -/
  forward : ∀ calls later : List Call,
    (replay t calls).state.rank ≤ (replay t (calls ++ later)).state.rank
  /-- One closing call has succeeded if the token is closed, and none if it is not. -/
  closes_once : ∀ calls : List Call, t.closings calls = if (replay t calls).state = .closed then 1 else 0
  /-- A call succeeds exactly in the state that it is meant for, and leads to the next one. -/
  accepts : ∀ (calls : List Call) (c : Call),
    (accepted c (replay t calls) = true ↔ c.Fits (replay t calls).state) ∧
    (accepted c (replay t calls) = true →
      (after c (replay t calls)).state = c.next (replay t calls).state)
  /-- A call that fails leaves the whole token as it was. -/
  unchanged : ∀ (calls : List Call) (c : Call), accepted c (replay t calls) = false →
    after c (replay t calls) = replay t calls
  /-- The spans of a closed token stay as they are. -/
  settled : ∀ calls later : List Call, (replay t calls).state = .closed →
    (replay t calls).SameSpans (replay t (calls ++ later))

theorem Regular.oneShot {t : Token K} (h : t.Regular) (hs : t.state = .unopened) : t.OneShot := by
  constructor
  · intro calls later
    rw [replay_append]
    exact ((h.replay calls).1.replay later).2.1
  · intro calls
    rw [h.closings_eq, hs]
    simp
  · intro calls c
    have hregular := (h.replay calls).1
    refine ⟨hregular.accepted_iff c, fun ha => ?_⟩
    rw [(hregular.after c).2.1, if_pos ha]
  · intro calls c
    exact Calls.after_of_not_accepted
  · intro calls later
    rw [replay_append]
    exact ((h.replay calls).1.replay later).2.2

/-- **A tag and a literal are closed once.** From its making on, such a token goes from unopened
over opened to closed and never back, one call closes it, a call in the wrong state fails without
a trace, and once it is closed nothing changes what it covers. -/
theorem one_shot :
    (∀ (kind : K) (rule : Nat) (stream opening : Span) (parent : Option Nat),
      (tag kind rule stream opening parent).OneShot) ∧
    ∀ (kind : K) (stream : Span) (parent : Option Nat), (literal kind stream parent).OneShot := by
  constructor
  · intro kind rule stream opening parent
    exact (Regular.tag kind rule stream opening parent).oneShot rfl
  · intro kind stream parent
    exact (Regular.literal kind stream parent).oneShot rfl

/-- A tag that is closed at its delimiter is not closed again, and nothing moves its spans. -/
example :
    let t := replay (tag Template.Kind.var 0 ⟨0, 6⟩ ⟨0, 2⟩ none)
      [Call.close none true, .begin, .moveTo 1, .close none false, .close (some ⟨3, 5⟩) false, .absorb]
    t.state = .closed ∧ t.span = some ⟨0, 5⟩ ∧ t.content = some ⟨2, 3⟩ := by
  decide

end Token

end Bracketry
