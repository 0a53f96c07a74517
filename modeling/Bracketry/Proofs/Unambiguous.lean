import Bracketry.Template.Grammar

/-!
# Unambiguous rulesets

Over an unambiguous ruleset a text never starts both with an open delimiter and
with a close delimiter, so it does not matter which of the two is looked for first.

* `Template.unambiguous`: **the template language is unambiguous.**
* `Ruleset.unambiguous_ofPairs`: **so are tags between fixed texts, if no open text
  and close text are prefixes of one another.**
-/

namespace Bracketry

/-- No text starts both with an open and with a close delimiter, and at the end of
the text nothing opens and nothing closes. A delimiter of length zero opens nothing. -/
structure Ruleset.Unambiguous {K : Type} (rules : Ruleset K) : Prop where
  apart : ∀ r ∈ rules.rules, ∀ r' ∈ rules.rules, ∀ text n opening,
    r.opens text = some (n + 1) → r'.closes opening text = none
  closes_nil : ∀ r ∈ rules.rules, ∀ opening, r.closes opening [] = none
  opens_nil : ∀ r ∈ rules.rules, ∀ n, r.opens [] ≠ some (n + 1)

/-- What opens a text is a rule of the ruleset. -/
theorem Ruleset.rule_mem {K : Type} {rules : Ruleset K} {text : Text} {o : Opening K}
    (ho : rules.opening? text = some o) : o.rule ∈ rules.rules := by
  obtain ⟨before, after, hrules, -, -, -⟩ := opening?_eq_some ho
  rw [hrules]
  exact List.mem_append_right before List.mem_cons_self

/-- Where a tag opens, none closes. -/
theorem Ruleset.Unambiguous.closes_eq_none {K : Type} {rules : Ruleset K} (hu : rules.Unambiguous)
    {rule : Rule K} (hr : rule ∈ rules.rules) (opening : Text) {text : Text} {o : Opening K}
    (ho : rules.opening? text = some o) : rule.closes opening text = none := by
  obtain ⟨_, _, -, -, hopens, -⟩ := opening?_eq_some ho
  -- a rule opens only with at least one byte
  have hlen : o.length = o.length - 1 + 1 := by have := o.positive; omega
  rw [hlen] at hopens
  exact hu.apart _ (rule_mem ho) _ hr text _ _ hopens

/-! ## The template language -/

namespace Template

theorem Delimiter.atStart?_of_lengthAt? {d : Delimiter} {s : Text} {n : Nat}
    (h : d.lengthAt? s = some n) : atStart? s = some (d, n) := by
  unfold lengthAt? at h
  split at h
  · next found m hs =>
    by_cases hd : found = d
    · rw [if_pos hd] at h
      rw [hs, hd, Option.some.inj h]
    · rw [if_neg hd] at h
      cases h
  · cases h

/-- At most one delimiter stands at the start of a text. -/
theorem Delimiter.lengthAt?_eq_none {d d' : Delimiter} {s : Text} {n : Nat}
    (h : d.lengthAt? s = some n) (hne : d ≠ d') : d'.lengthAt? s = none := by
  have hs := atStart?_of_lengthAt? h
  unfold lengthAt?
  rw [hs]
  exact if_neg hne

/-- A rule of the template language opens with one delimiter and closes with another. -/
theorem mem_rules {r : Rule Kind} (hr : r ∈ rules.rules) :
    ∃ d d' : Delimiter, r.opens = d.lengthAt? ∧ (∀ opening, r.closes opening = d'.lengthAt?) ∧
      d ∈ [.varOpen, .filterOpen, .optionalOpen] ∧ d' ∈ [.varClose, .filterClose, .optionalClose] := by
  simp only [rules, List.mem_cons, List.not_mem_nil, or_false] at hr
  rcases hr with rfl | rfl | rfl
  · exact ⟨.varOpen, .varClose, rfl, fun _ => rfl, by simp, by simp⟩
  · exact ⟨.filterOpen, .filterClose, rfl, fun _ => rfl, by simp, by simp⟩
  · exact ⟨.optionalOpen, .optionalClose, rfl, fun _ => rfl, by simp, by simp⟩

/-- **The template language is unambiguous.** -/
theorem unambiguous : rules.Unambiguous := by
  refine ⟨?_, ?_, ?_⟩
  · intro r hr r' hr' text n opening hopens
    obtain ⟨d, -, ho, -, hd, -⟩ := mem_rules hr
    obtain ⟨-, d', -, hc, -, hd'⟩ := mem_rules hr'
    rw [ho] at hopens
    rw [hc opening]
    apply Delimiter.lengthAt?_eq_none hopens
    intro heq
    rw [heq] at hd
    simp only [List.mem_cons, List.not_mem_nil, or_false] at hd hd'
    rcases hd' with rfl | rfl | rfl <;> simp at hd
  · intro r hr opening
    obtain ⟨-, d', -, hc, -, -⟩ := mem_rules hr
    rw [hc opening]
    rfl
  · intro r hr n hopens
    obtain ⟨d, -, ho, -, -, -⟩ := mem_rules hr
    rw [ho] at hopens
    cases hopens

end Template

/-! ## Tags between fixed texts -/

theorem Text.after?_eq_some {p s rest : Text} (h : after? p s = some rest) : s = p ++ rest := by
  induction p generalizing s with
  | nil => cases h; rfl
  | cons c p ih =>
    cases s with
    | nil => cases h
    | cons d s =>
      unfold after? at h
      by_cases hcd : c = d
      · rw [if_pos hcd] at h
        rw [hcd, ih h, List.cons_append]
      · rw [if_neg hcd] at h
        cases h

/-- A text is found at the start only of what it is a prefix of. -/
theorem Text.prefix_of_lengthAt? {p s : Text} {n : Nat} (h : lengthAt? p s = some n) :
    p <+: s ∧ n = bytes p := by
  unfold lengthAt? at h
  by_cases hs : startsWith p s = true
  · rw [if_pos hs] at h
    obtain ⟨rest, hrest⟩ := Option.isSome_iff_exists.1 hs
    exact ⟨⟨rest, (after?_eq_some hrest).symm⟩, (Option.some.inj h).symm⟩
  · rw [if_neg hs] at h
    cases h

/-- Two texts between which tags of one kind stand. -/
structure Pair (K : Type) where
  kind : K
  opening : Text
  closing : Text

/-- The ruleset of tags between fixed texts. -/
def Ruleset.ofPairs {K : Type} (literalKind groupKind : K) (pairs : List (Pair K)) : Ruleset K :=
  ⟨literalKind, groupKind, pairs.map fun p => Rule.pair p.kind p.opening p.closing⟩

/-- No open text and close text of some pairs are prefixes of one another, where
neither is empty. -/
def Pair.Apart {K : Type} (pairs : List (Pair K)) : Prop :=
  ∀ p ∈ pairs, ∀ q ∈ pairs, p.opening ≠ [] → q.closing ≠ [] →
    ¬p.opening <+: q.closing ∧ ¬q.closing <+: p.opening

variable {K : Type}

theorem Pair.prefix_of_opens {p : Pair K} {text : Text} {n : Nat}
    (h : (Rule.pair p.kind p.opening p.closing).opens text = some (n + 1)) :
    p.opening <+: text ∧ p.opening ≠ [] := by
  obtain ⟨hpre, hlen⟩ := Text.prefix_of_lengthAt? h
  refine ⟨hpre, ?_⟩
  intro hnil
  rw [hnil, Text.bytes_nil] at hlen
  omega

/-- A pair closes by its close text, which is not empty. -/
theorem Pair.lengthAt?_of_closes {p : Pair K} {opening text : Text} {n : Nat}
    (h : (Rule.pair p.kind p.opening p.closing).closes opening text = some n) :
    Text.lengthAt? p.closing text = some n ∧ p.closing ≠ [] := by
  by_cases hnil : p.closing = []
  · simp [Rule.pair, hnil] at h
  · simp only [Rule.pair, hnil, if_false] at h
    exact ⟨h, hnil⟩

theorem Pair.prefix_of_closes {p : Pair K} {opening text : Text} {n : Nat}
    (h : (Rule.pair p.kind p.opening p.closing).closes opening text = some n) :
    p.closing <+: text ∧ p.closing ≠ [] := by
  obtain ⟨hlength, hne⟩ := lengthAt?_of_closes h
  exact ⟨(Text.prefix_of_lengthAt? hlength).1, hne⟩

/-- **Tags between fixed texts are unambiguous** if no open text and close text are
prefixes of one another. -/
theorem Ruleset.unambiguous_ofPairs (literalKind groupKind : K) {pairs : List (Pair K)}
    (h : Pair.Apart pairs) : (ofPairs literalKind groupKind pairs).Unambiguous := by
  refine ⟨?_, ?_, ?_⟩
  · intro r hr r' hr' text n opening hopens
    obtain ⟨p, hp, rfl⟩ := List.mem_map.1 hr
    obtain ⟨q, hq, rfl⟩ := List.mem_map.1 hr'
    obtain ⟨hpre, hpne⟩ := Pair.prefix_of_opens hopens
    rw [Option.eq_none_iff_forall_ne_some]
    intro m hm
    obtain ⟨hpre', hqne⟩ := Pair.prefix_of_closes hm
    obtain ⟨hnot, hnot'⟩ := h p hp q hq hpne hqne
    -- both delimiters are prefixes of the text, so one is a prefix of the other
    rcases List.prefix_or_prefix_of_prefix hpre hpre' with hpq | hqp
    · exact hnot hpq
    · exact hnot' hqp
  · intro r hr opening
    obtain ⟨p, hp, rfl⟩ := List.mem_map.1 hr
    rw [Option.eq_none_iff_forall_ne_some]
    intro n hn
    obtain ⟨hpre, hne⟩ := Pair.prefix_of_closes hn
    exact hne (List.prefix_nil.1 hpre)
  · intro r hr n hopens
    obtain ⟨p, hp, rfl⟩ := List.mem_map.1 hr
    obtain ⟨hpre, hne⟩ := Pair.prefix_of_opens hopens
    exact hne (List.prefix_nil.1 hpre)

end Bracketry
