import Bracketry.Proofs.Budget
import Bracketry.Proofs.Stepping

/-!
# Reading a token to its end

A token is read position by position. The invariant is that its cursor is not beyond what was
read, and that what was read and what is left make up the body. So a position is the number of
bytes read, and the next one is behind a character.

* `Scanner.Reading`: the invariant. `Reading.runs_goOn`: it is kept.
* `Scanner.runs_readFrom_literal`: **a literal is read** as `literalStop` says.
-/

namespace Bracketry

open Segment (spanAt)

variable {K : Type}

/-- A token that is being read: its body is known, and the cursor is somewhere in it. -/
def Token.reading (t : Token K) (body : Span) (cursor : Nat) : Token K :=
  { t with body := some body, cursor := cursor, state := .opened }

theorem getElem?_set_of_getElem? {α : Type} {l : List α} {i : Nat} {a : α} (b : α)
    (h : l[i]? = some a) : (l.set i b)[i]? = some b :=
  List.getElem?_set_self (List.getElem?_eq_some_iff.1 h).1

/-- Writing a token that is no tag changes nothing for the tokens that a tag encloses. -/
theorem Enclosed.set {rules : Ruleset K} {source : Text} {tokens : List (Token K)} {id : Nat}
    {parent : Option Nat} {closes : Text → Option Nat} {t : Token K} (t' : Token K)
    (h : Enclosed rules source tokens parent closes)
    (hid : tokens[id]? = some t) (hvariant : ∀ index, t.variant ≠ .tag index) :
    Enclosed rules source (tokens.set id t') parent closes := by
  cases h with
  | top => exact .top
  | @tag p start tag owner hp howner =>
    refine .tag ?_ howner
    have hne : id ≠ p := by
      rintro rfl
      rw [hid] at hp
      cases hp
      exact hvariant _ howner.variant
    rw [List.getElem?_set_ne hne]
    exact hp

/-- Admitting a token changes nothing for the tokens that a tag encloses. -/
theorem Enclosed.append {rules : Ruleset K} {source : Text} {tokens : List (Token K)}
    {parent : Option Nat} {closes : Text → Option Nat}
    (h : Enclosed rules source tokens parent closes) (more : List (Token K)) :
    Enclosed rules source (tokens ++ more) parent closes := by
  cases h with
  | top => exact .top
  | tag hp howner =>
    refine .tag ?_ howner
    rw [List.getElem?_append_left (List.getElem?_eq_some_iff.1 hp).1]
    exact hp

namespace Scanner

open Walk

variable {s : Scanner K} {g : Gauge} {id body : Nat} {tokens : List (Token K)} {t : Token K}
  {read text : Text}

/-- **A token is being read:** its cursor is not beyond what was read of its body, and what is left
of the source comes next. -/
structure Reading (s : Scanner K) (tokens : List (Token K)) (id : Nat) (t : Token K) (body : Nat)
    (read text : Text) : Prop where
  token : ∃ cursor, cursor ≤ Text.bytes read ∧
    tokens[id]? = some (t.reading (s.after body) cursor)
  left : Text.Left s.source body (read ++ text)

/-- The tokens when the cursor of one is where its reading is. -/
def caughtUp (s : Scanner K) (tokens : List (Token K)) (id : Nat) (t : Token K) (body : Nat)
    (read : Text) : List (Token K) :=
  tokens.set id (t.reading (s.after body) (Text.bytes read))

@[simp] theorem set_caughtUp (t' : Token K) :
    (s.caughtUp tokens id t body read).set id t' = tokens.set id t' := by
  unfold caughtUp
  exact List.set_set ..

@[simp] theorem caughtUp_caughtUp (read' : Text) :
    s.caughtUp (s.caughtUp tokens id t body read) id t body read' = s.caughtUp tokens id t body read' :=
  set_caughtUp _

@[simp] theorem length_caughtUp : (s.caughtUp tokens id t body read).length = tokens.length := by
  unfold caughtUp
  exact List.length_set

namespace Reading

theorem getElem?_caughtUp (h : s.Reading tokens id t body read text) :
    (s.caughtUp tokens id t body read)[id]? =
      some (t.reading (s.after body) (Text.bytes read)) := by
  obtain ⟨cursor, -, hid⟩ := h.token
  exact getElem?_set_of_getElem? _ hid

/-- The reading goes on behind a character. -/
theorem next {c : Char} (h : s.Reading tokens id t body read (c :: text)) :
    s.Reading (s.caughtUp tokens id t body read) id t body (read ++ [c]) text := by
  refine ⟨⟨Text.bytes read, ?_, h.getElem?_caughtUp⟩, ?_⟩
  · rw [Text.bytes_append]
    exact Nat.le_add_right _ _
  · rw [List.append_assoc]
    exact h.left

/-- Plain text is closed as what was read. -/
theorem runs_close_literal {call : Token K → Except Error (Token K)} {t' : Token K}
    {swallowed : Option Span} (h : s.Reading tokens id t body read text)
    (hcall : call (t.reading (s.after body) (Text.bytes read)) = .ok t')
    (hcursor : t'.cursor = Text.bytes read) (hvariant : t'.variant = .literal swallowed)
    (hcontent : t'.content = some (spanAt body read)) :
    ((update id call) >>= fun _ => s.closed id).Runs s.source (s.caughtUp tokens id t body read)
      (.ok ((), tokens.set id t')) := by
  have hid := h.getElem?_caughtUp
  refine .andThen (runs_update hid hcall (Nat.le_of_eq hcursor.symm)) ?_
  have hset := getElem?_set_of_getElem? t' hid
  have hclosed := runs_closed_literal hset hvariant hcontent h.left.covers
  rwa [set_caughtUp] at hclosed ⊢

variable [DecidableEq K] [Taxonomy K]

/-- Reading a token from a position on: the cursor gets there, and the position is looked at. -/
theorem runs_position (h : s.Reading tokens id t body read text) {α : Type} {next : Step → Walk K α}
    {answer : Except Error (α × List (Token K))}
    (hnext : (s.step g id (s.after body) (Text.bytes read) >>= next).Runs s.source
      (s.caughtUp tokens id t body read) answer) :
    ((update id fun t => .ok (t.moveTo (Text.bytes read))) >>= fun _ =>
      s.step g id (s.after body) (Text.bytes read) >>= next).Runs s.source tokens answer := by
  obtain ⟨cursor, hcursor, hid⟩ := h.token
  exact .andThen (runs_update hid rfl hcursor) hnext

/-- **A token is read on** where nothing happens. -/
theorem runs_goOn {c : Char} (hsane : s.Sane) (h : s.Reading tokens id t body read (c :: text))
    {answer : Except Error (Unit × List (Token K))}
    (hstep : (s.step g id (s.after body) (Text.bytes read)).Runs s.source
      (s.caughtUp tokens id t body read) (.ok (.goOn, s.caughtUp tokens id t body read)))
    (hrest : (s.readFrom g id (s.after body) (Text.bytes (read ++ [c]))).Runs s.source
      (s.caughtUp tokens id t body read) answer) :
    (s.readFrom g id (s.after body) (Text.bytes read)).Runs s.source tokens answer := by
  have hlen : Text.bytes (read ++ [c]) = Text.bytes read + c.utf8Size := by simp
  have hlt : Text.bytes read < (s.after body).length := by
    have hstop := h.left.stop_eq
    have hpos := c.utf8Size_pos
    rw [Text.bytes_append, Text.bytes_cons] at hstop
    rw [length_after]
    omega
  unfold readFrom
  refine h.runs_position (.andThen hstep ?_)
  dsimp only
  rw [h.left.drop_eq hsane.short]
  refine .andThen (s.runs_cut h.left.skip.covers_all) ?_
  dsimp only
  rwa [if_pos hlt, ← hlen]

end Reading

end Scanner

/-! ## Plain text -/

/-- The literal that plain text is read as, of which some was read before. -/
def LiteralStop.segment (read : Text) : LiteralStop → Segment K
  | .swallows plain closing _ => .literal (read ++ plain) (some closing)
  | .boundary plain _ => .literal (read ++ plain) none

theorem LiteralStop.segment_cons (read : Text) (c : Char) (stop : LiteralStop) :
    ((stop.cons c).segment read : Segment K) = stop.segment (read ++ [c]) := by
  cases stop <;> simp [segment, cons]

/-- The token of a literal when it is admitted. -/
def Layout.literal (l : Layout K) (parent : Option Nat) (start : Nat) : Token K :=
  .literal l.literalKind ⟨start, l.stop⟩ parent

section Plain

variable {rules : Ruleset K} {closes : Text → Option Nat}

/-- Whether a literal ends at the start of a text. -/
def endsAt (rules : Ruleset K) (closes : Text → Option Nat) (text : Text) : Bool :=
  (closes text).isSome || (text.isEmpty || (rules.opening? text).isSome)

theorem literalStop_of_boundary {text : Text} (hn : closes text = none)
    (hend : (text.isEmpty || (rules.opening? text).isSome) = true) :
    rules.literalStop closes text = .boundary [] text := by
  unfold Ruleset.literalStop
  rw [hn]
  cases text with
  | nil => rfl
  | cons c rest => exact if_pos hend

theorem literalStop_of_plain {c : Char} {rest : Text} (hn : closes (c :: rest) = none)
    (ho : rules.opening? (c :: rest) = none) :
    rules.literalStop closes (c :: rest) = (rules.literalStop closes rest).cons c := by
  conv_lhs => unfold Ruleset.literalStop
  rw [hn]
  dsimp only
  rw [ho]
  rfl

end Plain

namespace Scanner

open Walk

variable {s : Scanner K} {g : Gauge} {id start : Nat} {tokens : List (Token K)} {read text : Text}
  {parent : Option Nat} {closes : Text → Option Nat}

theorem enclosed_caughtUp (hencl : Enclosed s.rules s.source tokens parent closes)
    (h : s.Reading tokens id (s.layout.literal parent start) start read text) :
    Enclosed s.rules s.source
      (s.caughtUp tokens id (s.layout.literal parent start) start read) parent closes := by
  obtain ⟨cursor, -, hid⟩ := h.token
  exact hencl.set _ hid fun _ hvariant => nomatch hvariant

variable [DecidableEq K] [Taxonomy K]

/-- **A literal ends** at the first position where it has to. -/
theorem runs_literal_end (hsane : s.Sane)
    (hencl : Enclosed s.rules s.source tokens parent closes)
    (h : s.Reading tokens id (s.layout.literal parent start) start read text)
    (next : Nat) (hend : endsAt s.rules closes text = true) :
    (s.readFrom g id (s.after start) (Text.bytes read)).Runs s.source tokens
      (.ok ((), tokens.set id (((s.rules.literalStop closes text).segment read).own
        s.layout parent start next).token)) := by
  have hencl' := enclosed_caughtUp hencl h
  have hstep := runs_step_literal hsane h.getElem?_caughtUp rfl hencl' h.left (g := g)
  unfold endsAt at hend
  unfold readFrom
  refine h.runs_position (.andThen hstep ?_)
  cases hn : closes text with
  | some n =>
    rw [literalStop_of_closes hn]
    simp only [LiteralStop.segment, List.append_nil]
    exact h.runs_close_literal rfl rfl rfl rfl
  | none =>
    rw [hn, Option.isSome_none, Bool.false_or] at hend
    rw [literalStop_of_boundary hn hend]
    simp only [hend, if_true, LiteralStop.segment, List.append_nil]
    exact h.runs_close_literal rfl rfl rfl rfl

/-- **A literal is read to its end.** -/
theorem runs_readFrom_literal (hsane : s.Sane)
    (hencl : Enclosed s.rules s.source tokens parent closes)
    (h : s.Reading tokens id (s.layout.literal parent start) start read text)
    (next : Nat) :
    (s.readFrom g id (s.after start) (Text.bytes read)).Runs s.source tokens
      (.ok ((), tokens.set id (((s.rules.literalStop closes text).segment read).own
        s.layout parent start next).token)) := by
  induction text generalizing tokens read with
  | nil =>
    refine runs_literal_end hsane hencl h next ?_
    simp [endsAt]
  | cons c rest ih =>
    cases hend : endsAt s.rules closes (c :: rest) with
    | true => exact runs_literal_end hsane hencl h next hend
    | false =>
      obtain ⟨hn, ho⟩ : closes (c :: rest) = none ∧ s.rules.opening? (c :: rest) = none := by
        simpa [endsAt] using hend
      have hencl' := enclosed_caughtUp hencl h
      have hstep := runs_step_literal hsane h.getElem?_caughtUp rfl hencl' h.left (g := g)
      rw [hn, ho] at hstep
      have hrest := ih hencl' h.next
      rw [set_caughtUp, ← LiteralStop.segment_cons, ← literalStop_of_plain hn ho] at hrest
      exact h.runs_goOn hsane hstep hrest

end Scanner

end Bracketry
