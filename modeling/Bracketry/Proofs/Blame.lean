import Bracketry.Proofs.Lexing
import Bracketry.Proofs.Unclosed

/-!
# What a failed scan blames

A scan moves its tokens through their life cycle and looks up their rules by number, and
either can fail. In a scan neither does: no token is called against its life cycle, and every
number stands for a rule. What is left is a bound that is too close, or a tag of the source
that the end of the text leaves open.

* `Span.slice_clamped`: an open delimiter, cut off at the end of the source.
* `scan_blames`: **a scan fails only on its input or at its bounds,** and an open tag that it
  names is one that the rules open where the error says.
-/

namespace Bracketry

variable {K : Type}

/-- A length beyond the end of a text cuts off all of it. -/
theorem Text.take_min_bytes (n : Nat) (text : Text) : take (min n (bytes text)) text = take n text := by
  by_cases hle : n ≤ bytes text
  · rw [Nat.min_eq_left hle]
  · have hge : bytes text ≤ n := by omega
    rw [Nat.min_eq_right hge, take_eq_self (Nat.le_refl _), take_eq_self hge]

/-- The first `n` bytes behind a position, as far as the source has them. -/
theorem Span.slice_clamped (before text : Text) (n : Nat) :
    (Span.clamp ⟨Text.bytes before, Text.bytes (before ++ text)⟩ n).slice (before ++ text) =
      Text.take n text := by
  have hlength : (Span.clamp ⟨Text.bytes before, Text.bytes (before ++ text)⟩ n).length =
      min n (Text.bytes text) := by
    unfold Span.clamp length
    rw [Text.bytes_append]
    dsimp only
    omega
  unfold slice
  rw [hlength, ← Text.take_min_bytes n text]
  exact congrArg (Text.take _) (Text.drop_bytes_append before text)

section

variable [DecidableEq K] [Taxonomy K] {rules : Ruleset K} {limits : Limits} {source : Text}

/-- **What a failed scan blames:** one of its bounds, or a tag that the rules open at a
position of the source. The error of a tag names its open delimiter, as far as the source has
it, or its kind if there is nothing of it; and the close delimiter that its rule guesses. -/
inductive Blames (rules : Ruleset K) (source : Text) : Error → Prop
  | tooDeep (depth limit : Nat) : Blames rules source (.tooDeep depth limit)
  | tooMany (consumed limit : Nat) : Blames rules source (.tooMany consumed limit)
  | unclosed {before text opened : Text} {o : Opening K} {rule : Rule K} :
      source = before ++ text → rules.opening? text = some o → rules.rule o.index = .ok rule →
      opened = (Span.clamp ⟨Text.bytes before, Text.bytes source⟩ o.length).slice source →
      Blames rules source (.unclosed
        (if opened = [] then Taxonomy.name rule.kind else String.ofList opened)
        ((rule.guess opened).map String.ofList) (Text.bytes before))

theorem Error.IsLimit.blames {e : Error} (h : e.IsLimit) : Blames rules source e := by
  cases e with
  | tooDeep depth limit => exact .tooDeep depth limit
  | tooMany consumed limit => exact .tooMany consumed limit
  | _ => exact h.elim

/-- A tag that reading the source leaves open is blamed where it stands. -/
theorem OutlineOpen.blames {t : Tag K} {left : Text} (h : OutlineOpen rules source t left) :
    Blames rules source (t.unclosed ((Scanner.mk rules limits source).offset left)) := by
  obtain ⟨before, o, hsource, ho, rfl, -⟩ := h.staysOpen
  have hrule := Ruleset.rule_of_opening ho
  have hopened : (o.tag left).opening =
      (Span.clamp ⟨Text.bytes before, Text.bytes source⟩ o.length).slice source := by
    rw [hsource, Span.slice_clamped]
    rfl
  rw [(Scanner.mk rules limits source).offset_eq hsource]
  exact .unclosed hsource ho hrule hopened

/-- **A scan fails only on its input or at its bounds.** It never calls a token against its
life cycle and never asks for a rule that is not there. A tag that it finds open is a tag that
the rules open at the offset of the error. -/
theorem scan_blames {e : Error} (h : TokenTree.scan rules limits source = .error e) :
    (∀ kind violation, e ≠ .misuse kind violation) ∧
      (∀ argument reason, e ≠ .invalid argument reason) ∧ Blames rules source e := by
  have hanswers := TokenTree.scan_answers rules limits source
  rw [h] at hanswers
  have hblames : Blames rules source e := by
    cases hanswers with
    | limit hlimit => exact hlimit.blames
    | unclosed hopen => exact hopen.blames
  refine ⟨?_, ?_, hblames⟩
  · rintro kind violation rfl
    cases hblames
  · rintro argument reason rfl
    cases hblames

end

namespace Template

/-- A template whose optional section is left open behind a variable in it. -/
def unfinished : Text := ['é', '\x7b', '?', 'b', '\x7b', '\x7b', 'c', '\x7d', '\x7d']

theorem scan_blames_unfinished :
    TokenTree.scan rules .default unfinished = .error (.unclosed "\x7b?" (some "?\x7d") 2) ∧
      (∀ kind violation, Error.unclosed "\x7b?" (some "?\x7d") 2 ≠ .misuse kind violation) ∧
      (∀ argument reason, Error.unclosed "\x7b?" (some "?\x7d") 2 ≠ .invalid argument reason) ∧
      Blames rules unfinished (.unclosed "\x7b?" (some "?\x7d") 2) := by
  have h : TokenTree.scan rules .default unfinished =
      .error (.unclosed "\x7b?" (some "?\x7d") 2) := by cbv
  exact ⟨h, scan_blames h⟩

end Template

end Bracketry
