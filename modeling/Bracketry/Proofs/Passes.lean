import Bracketry.Proofs.Lexing
import Bracketry.Scan.Positions

/-!
# What a part of a pass comes to

A part of a pass is known by what it comes to from given tokens, whatever was done before: its
answer and the tokens after it. On its way it slices the source between characters only, no sum of a
position and a reported length leaves the machine words, and no cursor moves back.

* `Span.Valid`: a span that can be sliced.
* `Walk.Runs`: a part of a pass comes to an answer. `Runs.bind`, `Runs.andThen` put parts in a row.
* `Scanner.runs_cut`, `Walk.runs_take`, `Walk.runs_update`: the steps that leave a trace.
-/

namespace Bracketry

open Segment (spanAt)

variable {K α β : Type}

/-! ## Spans that can be sliced -/

/-- A position between two characters of a text, its two ends among them. -/
def Text.Splits (text : Text) (pos : Nat) : Prop :=
  ∃ before after, text = before ++ after ∧ bytes before = pos

/-- A span that can be sliced: it starts before it stops, it stops within the source, and it cuts
no character. -/
structure Span.Valid (source : Text) (span : Span) : Prop where
  start_le : span.start ≤ span.stop
  stop_le : span.stop ≤ Text.bytes source
  start : Text.Splits source span.start
  stop : Text.Splits source span.stop

/-- A span that covers a text can be sliced. -/
theorem Span.Covers.valid {source text : Text} {span : Span} (h : span.Covers source text) :
    span.Valid source := by
  obtain ⟨before, after, rfl, rfl⟩ := h
  refine ⟨Nat.le_add_right _ _, ?_, ⟨before, text ++ after, by simp, rfl⟩,
    ⟨before ++ text, after, rfl, ?_⟩⟩
  · simp only [Text.bytes_append, spanAt]
    omega
  · rw [Text.bytes_append, spanAt]

/-- What was done stays within the source: it is sliced by spans that can be sliced, a reported
length is added to a position as numbers are, and a cursor does not move back. -/
def Event.Sound (source : Text) : Event → Prop
  | .cut span => span.Valid source
  | .take span length => span.start + length < UInt64.size
  | .write _ old new => old ≤ new

/-! ## Text that is left -/

/-- From a position on, the source has a text left. -/
def Text.Left (source : Text) (start : Nat) (text : Text) : Prop :=
  ∃ before, source = before ++ text ∧ bytes before = start

namespace Text.Left

variable {source text more : Text} {start n : Nat}

theorem whole (source : Text) : Left source 0 source := ⟨[], rfl, rfl⟩

theorem stop_eq (h : Left source start text) : start + bytes text = bytes source := by
  obtain ⟨before, rfl, rfl⟩ := h
  rw [bytes_append]

theorem skip (h : Left source start (text ++ more)) : Left source (start + bytes text) more := by
  obtain ⟨before, rfl, rfl⟩ := h
  exact ⟨before ++ text, by rw [List.append_assoc], bytes_append before text⟩

theorem covers (h : Left source start (text ++ more)) : (spanAt start text).Covers source text := by
  obtain ⟨before, rfl, rfl⟩ := h
  exact ⟨before, more, by rw [List.append_assoc], rfl⟩

theorem covers_all (h : Left source start text) :
    (Span.mk start (bytes source)).Covers source text := by
  rw [← h.stop_eq]
  rw [← List.append_nil text] at h
  exact h.covers

/-- Where a part of the text was read, the rest of the span is the rest of the text. -/
theorem drop_eq (hshort : bytes source < UInt64.size) (h : Left source start (text ++ more)) :
    (Span.mk start (bytes source)).drop (bytes text) = ⟨start + bytes text, bytes source⟩ := by
  have hstop := h.stop_eq
  rw [bytes_append] at hstop
  have hfits : start + bytes text < UInt64.size := by omega
  have hmin : min (start + bytes text) (bytes source) = start + bytes text := by omega
  rw [Span.drop, Span.shift_eq hfits, hmin]

/-- A reported length that ends between two characters, or beyond the end, gives a span of the
source. -/
theorem take_eq (h : Left source start text) (hn : Text.Boundary text n)
    (hfits : start + n < UInt64.size) :
    (Span.mk start (bytes source)).take n = spanAt start (take n text) := by
  have hstop := h.stop_eq
  have hlen := Text.bytes_take hn
  have hmin : min (start + n) (bytes source) = start + min n (bytes text) := by omega
  rw [Span.take_eq_clamp hfits, Span.clamp, spanAt, hlen, hmin]

end Text.Left

/-! ## Runs -/

namespace Walk

/-- Two parts in a row: the second goes on from the pass after the first. -/
theorem runFrom_bind (w : Walk K α) (next : α → Walk K β) (p : Pass K) :
    (w >>= next).runFrom p = (w.runFrom p).bind fun
      | (.ok a, p') => (next a).runFrom p'
      | (.error e, p') => some (.error e, p') := by
  show ((StateT.run (ExceptT.run w) p).bind fun x => _) = _
  unfold runFrom
  cases StateT.run (ExceptT.run w) p with
  | none => rfl
  | some r =>
    obtain ⟨a, p'⟩ := r
    cases a <;> rfl

/-- From given tokens a part of a pass comes to an answer, which tells the tokens after it where
it succeeds. Whatever was done before, all that is done on the way stays within the source. -/
def Runs (source : Text) (w : Walk K α) (tokens : List (Token K))
    (answer : Except Error (α × List (Token K))) : Prop :=
  ∀ events, (∀ e ∈ events, e.Sound source) →
    ∃ p, w.runFrom ⟨tokens, events⟩ = some (answer.map Prod.fst, p) ∧ (∀ e ∈ p.events, e.Sound source) ∧
      ∀ r, answer = .ok r → p.tokens = r.2

variable {source : Text} {tokens after : List (Token K)}

namespace Runs

theorem pure (a : α) : Runs source (pure a : Walk K α) tokens (.ok (a, tokens)) := by
  intro events hev
  exact ⟨⟨tokens, events⟩, rfl, hev, fun r hr => by cases hr; rfl⟩

/-- **Two parts in a row:** the second goes on with what the first found, from the tokens after
it. -/
theorem bind {γ : Type} {w : Walk K α} {next : α → Walk K β} {run : Except Error γ}
    {found : γ → α × List (Token K)} {rest : γ → Except Error (β × List (Token K))}
    (hw : w.Runs source tokens (run.map found))
    (hnext : ∀ c, run = .ok c → (next (found c).1).Runs source (found c).2 (rest c)) :
    (w >>= next).Runs source tokens (run >>= rest) := by
  intro events hev
  obtain ⟨p, hp, hsound, htokens⟩ := hw events hev
  rw [runFrom_bind, hp]
  cases run with
  | error e => exact ⟨p, rfl, hsound, fun _ hr => nomatch hr⟩
  | ok c =>
    have hp' : p = ⟨(found c).2, p.events⟩ := by
      rw [← htokens (found c) rfl]
    obtain ⟨p', hrun, hsound', htokens'⟩ := hnext c rfl p.events hsound
    rw [← hp'] at hrun
    exact ⟨p', hrun, hsound', htokens'⟩

/-- What follows a part that succeeds goes on with its result. -/
theorem andThen {w : Walk K α} {next : α → Walk K β} {a : α}
    {answer : Except Error (β × List (Token K))} (hw : w.Runs source tokens (.ok (a, after)))
    (hnext : (next a).Runs source after answer) : (w >>= next).Runs source tokens answer := by
  have hrun : w.Runs source tokens ((.ok () : Except Error Unit).map fun _ => (a, after)) := hw
  exact bind hrun fun _ _ => hnext

end Runs

/-! ## Steps -/

theorem runs_lift (run : Except Error α) :
    (lift run : Walk K α).Runs source tokens (run.map fun a => (a, tokens)) := by
  intro events hev
  refine ⟨⟨tokens, events⟩, ?_, hev, ?_⟩
  · cases run <;> rfl
  · intro r hr
    cases run with
    | error e => cases hr
    | ok a => cases hr; rfl

/-- The start of a span is cut off, if the sum is a machine word. -/
theorem runs_take {span taken : Span} {length : Nat} (hfits : span.start + length < UInt64.size)
    (htaken : span.take length = taken) :
    (take span length : Walk K Span).Runs source tokens (.ok (taken, tokens)) := by
  intro events hev
  refine ⟨⟨tokens, .take span length :: events⟩, ?_, ?_, fun r hr => by cases hr; rfl⟩
  · rw [← htaken]
    rfl
  · intro e he
    rcases List.mem_cons.1 he with rfl | he
    · exact hfits
    · exact hev e he

variable {id : Nat} {t t' : Token K}

theorem runs_token (h : tokens[id]? = some t) : (token id).Runs source tokens (.ok (t, tokens)) := by
  intro events hev
  refine ⟨⟨tokens, events⟩, ?_, hev, fun r hr => by cases hr; rfl⟩
  show (tokens[id]?.map fun t => (Except.ok t, Pass.mk tokens events)) = _
  rw [h]
  rfl

/-- A call that succeeds and does not move the cursor back writes the token. -/
theorem runs_update {call : Token K → Except Error (Token K)} (h : tokens[id]? = some t)
    (hcall : call t = .ok t') (hcursor : t.cursor ≤ t'.cursor) :
    (update id call).Runs source tokens (.ok ((), tokens.set id t')) := by
  intro events hev
  refine ⟨⟨tokens.set id t', .write id t.cursor t'.cursor :: events⟩, ?_, ?_,
    fun r hr => by cases hr; rfl⟩
  · simp only [runFrom, update, ExceptT.run_mk, StateT.run, h, hcall, Except.map]
  · intro e he
    rcases List.mem_cons.1 he with rfl | he
    · exact hcursor
    · exact hev e he

end Walk

theorem Limits.eq_of_grant {l : Limits} {held n : Nat} (h : l.grant held = .ok n) : n = held + 1 := by
  unfold grant at h
  split at h
  · cases h
  · cases h
    rfl

namespace Scanner

open Walk

/-- The rest of the source from a position on. -/
abbrev after (s : Scanner K) (pos : Nat) : Span := ⟨pos, Text.bytes s.source⟩

theorem length_after (s : Scanner K) (pos : Nat) :
    (s.after pos).length = Text.bytes s.source - pos := rfl

/-- What the tokens of the source have in common. -/
abbrev layout (s : Scanner K) : Layout K := TokenTree.layout s.rules s.source

variable (s : Scanner K) {tokens : List (Token K)}

/-- **The source is sliced** by a span that covers a text. -/
theorem runs_cut {span : Span} {text : Text} (h : span.Covers s.source text) :
    (s.cut span).Runs s.source tokens (.ok (text, tokens)) := by
  intro events hev
  refine ⟨⟨tokens, .cut span :: events⟩, ?_, ?_, fun r hr => by cases hr; rfl⟩
  · rw [← h.slice_eq]
    rfl
  · intro e he
    rcases List.mem_cons.1 he with rfl | he
    · exact h.valid
    · exact hev e he

theorem runs_cut? {span : Span} {text : Text} (h : span.Covers s.source text) :
    (s.cut? (some span)).Runs s.source tokens (.ok (text, tokens)) := s.runs_cut h

/-- A part of a pass admits a token if the bounds leave room for it, and finds its number. -/
def Admits (s : Scanner K) (w : Walk K Nat) (tokens : List (Token K)) (token : Token K) : Prop :=
  w.Runs s.source tokens
    ((s.limits.grant tokens.length).map fun _ => (tokens.length, tokens ++ [token]))

theorem admits_addToken (token : Token K) : s.Admits (s.addToken token) tokens token := by
  intro events hev
  cases hg : s.limits.grant tokens.length with
  | error e =>
    refine ⟨⟨tokens, events⟩, ?_, hev, fun _ hr => nomatch hr⟩
    simp only [runFrom, addToken, ExceptT.run_mk, StateT.run, hg, Except.map]
  | ok n =>
    refine ⟨⟨tokens ++ [token], events⟩, ?_, hev, fun _ hr => by cases hr; rfl⟩
    simp only [runFrom, addToken, ExceptT.run_mk, StateT.run, hg, Except.map]

/-- What follows the admission of a token goes on with one token more. -/
theorem Admits.bind {s : Scanner K} {w : Walk K Nat} {token : Token K} {next : Nat → Walk K β}
    {rest : Nat → Except Error (β × List (Token K))} (h : s.Admits w tokens token)
    (hnext : s.limits.grant tokens.length = .ok (tokens.length + 1) →
      (next tokens.length).Runs s.source (tokens ++ [token]) (rest (tokens.length + 1))) :
    (w >>= next).Runs s.source tokens (s.limits.grant tokens.length >>= rest) := by
  refine Runs.bind h ?_
  intro n hn
  obtain rfl := Limits.eq_of_grant hn
  exact hnext hn

end Scanner

end Bracketry
