import Bracketry.Error
import Bracketry.Rule
import Bracketry.Taxonomy

/-!
# Rulesets

The tag rules of one grammar in order of priority, one rule for each kind, with
the kinds of the tokens that have no rule: literals and groups.

* `opening?_eq_some`: the first rule that opens a text wins; it opens the text
  with at least one byte.
* `opening?_eq_none_iff`: no tag opens exactly where no rule opens one.
* `rule_of_opening`: the number of a rule that opens a text stands for that rule.
-/

namespace Bracketry

structure Ruleset (K : Type) where
  literalKind : K
  groupKind : K
  rules : List (Rule K)

/-- A tag that opens at the start of a text: its rule, the number of the rule,
and the length of the open delimiter as the rule reports it. -/
structure Opening (K : Type) where
  index : Nat
  rule : Rule K
  length : Nat
  positive : 0 < length

namespace Ruleset

variable {K : Type}

/-- A ruleset without rules. -/
def empty (literalKind groupKind : K) : Ruleset K := ⟨literalKind, groupKind, []⟩

/-- Puts a rule in the place of the rule of its kind, else at the end. -/
def place [DecidableEq K] (rule : Rule K) : List (Rule K) → List (Rule K)
  | [] => [rule]
  | r :: rs => if r.kind = rule.kind then rule :: rs else r :: place rule rs

/-- Registers a rule. The rule of a kind that already has one takes over its
priority; the kinds of literals and groups have no rule. -/
def register [DecidableEq K] [Taxonomy K] (s : Ruleset K) (rule : Rule K) :
    Except Error (Ruleset K) :=
  if rule.kind = s.literalKind ∨ rule.kind = s.groupKind then
    .error (.invalid "rule" ("`" ++ Taxonomy.name rule.kind ++
      "` is reserved for untagged tokens and cannot have a tag rule"))
  else .ok { s with rules := place rule s.rules }

/-- The first of some rules that opens a text; `i` is the number of the head. -/
def firstOpening (text : Text) (i : Nat) : List (Rule K) → Option (Opening K)
  | [] => none
  | r :: rs =>
    match r.opens text with
    | some (n + 1) => some ⟨i, r, n + 1, n.succ_pos⟩
    | _ => firstOpening text (i + 1) rs

/-- The tag that opens at the start of a text, if one does. -/
def opening? (s : Ruleset K) (text : Text) : Option (Opening K) := firstOpening text 0 s.rules

theorem firstOpening_eq_some {text : Text} {i : Nat} {rules : List (Rule K)} {o : Opening K}
    (h : firstOpening text i rules = some o) :
    ∃ before after, rules = before ++ o.rule :: after ∧ o.index = i + before.length ∧
      o.rule.opens text = some o.length ∧ ∀ r ∈ before, ∀ n, r.opens text ≠ some (n + 1) := by
  induction rules generalizing i with
  | nil => cases h
  | cons r rs ih =>
    unfold firstOpening at h
    split at h
    · next n hn =>
      obtain rfl := Option.some.inj h
      exact ⟨[], rs, rfl, rfl, hn, fun _ hr => absurd hr List.not_mem_nil⟩
    · next hn =>
      obtain ⟨before, after, rfl, hi, ho, hb⟩ := ih h
      refine ⟨r :: before, after, rfl, ?_, ho, ?_⟩
      · rw [hi, List.length_cons, Nat.add_assoc, Nat.add_comm 1]
      · intro r' hr' n
        rcases List.mem_cons.1 hr' with rfl | hr'
        · exact hn n
        · exact hb r' hr' n

theorem firstOpening_eq_none_iff {text : Text} {i : Nat} {rules : List (Rule K)} :
    firstOpening text i rules = none ↔ ∀ r ∈ rules, ∀ n, r.opens text ≠ some (n + 1) := by
  induction rules generalizing i with
  | nil => exact ⟨fun _ _ hr => absurd hr List.not_mem_nil, fun _ => rfl⟩
  | cons r rs ih =>
    unfold firstOpening
    split
    · next n hn =>
      refine ⟨fun h => ?_, fun h => absurd hn (h r List.mem_cons_self n)⟩
      cases h
    · next hn =>
      rw [ih]
      refine ⟨fun h r' hr' => ?_, fun h r' hr' => h r' (List.mem_cons_of_mem r hr')⟩
      rcases List.mem_cons.1 hr' with rfl | hr'
      · exact hn
      · exact h r' hr'

/-- The rule that opens a text is the first one that does. -/
theorem opening?_eq_some {s : Ruleset K} {text : Text} {o : Opening K}
    (h : s.opening? text = some o) :
    ∃ before after, s.rules = before ++ o.rule :: after ∧ o.index = before.length ∧
      o.rule.opens text = some o.length ∧ ∀ r ∈ before, ∀ n, r.opens text ≠ some (n + 1) := by
  obtain ⟨before, after, hs, hi, ho, hb⟩ := firstOpening_eq_some h
  exact ⟨before, after, hs, hi.trans (Nat.zero_add _), ho, hb⟩

theorem opening?_eq_none_iff {s : Ruleset K} {text : Text} :
    s.opening? text = none ↔ ∀ r ∈ s.rules, ∀ n, r.opens text ≠ some (n + 1) :=
  firstOpening_eq_none_iff

/-- The rule of a number. -/
def rule (s : Ruleset K) (index : Nat) : Except Error (Rule K) :=
  match s.rules[index]? with
  | some rule => .ok rule
  | none => .error (.invalid "rule" ("no tag rule at index " ++ toString index))

/-- The rule that opens a text is found under its number. -/
theorem getElem?_index {s : Ruleset K} {text : Text} {o : Opening K}
    (h : s.opening? text = some o) : s.rules[o.index]? = some o.rule := by
  obtain ⟨before, after, hrules, hindex, -, -⟩ := opening?_eq_some h
  rw [hrules, hindex, List.getElem?_append_right (Nat.le_refl _), Nat.sub_self]
  rfl

theorem rule_of_opening {s : Ruleset K} {text : Text} {o : Opening K}
    (h : s.opening? text = some o) : s.rule o.index = .ok o.rule := by
  unfold rule
  rw [getElem?_index h]

/-- Whether literal text has to stop at byte `pos`: at the end, or where a tag
opens. -/
def stopsAt (s : Ruleset K) (text : Text) (pos : Nat) : Bool :=
  Text.bytes text ≤ pos || (s.opening? (Text.drop pos text)).isSome

end Ruleset

end Bracketry
