import Mathlib
import Bracketry.InPlace.Ruleset
import Bracketry.Template.Kind

/-!
# Rules in the order of their registration

The rules of a ruleset stand in one row, and a rule is known by its place in the row. Registering
writes there in place: it looks for the slot of the kind and overwrites that, or it adds a slot at
the end. So a kind keeps the place that it got first, whatever is registered later.

* `Ruleset.map_kind_place`, `Ruleset.mem_place`: what a registration does to the slots.
* `Ruleset.opening?_eq_some_iff`: the tag that opens a text is that of the first slot whose rule
  opens it.
* `Ruleset.registered`: **a ruleset holds one slot for each kind,** in the order of the first
  registrations, with the rule of the last.
-/

namespace Bracketry

variable {K : Type}

/-- A rule opens a text, with a delimiter that is not empty. -/
def Rule.Begins (r : Rule K) (text : Text) : Prop := ∃ n, 0 < n ∧ r.opens text = some n

namespace Ruleset

open Calls (after replay replay_concat)

section

variable [DecidableEq K]

/-! ## One slot for each kind -/

/-- **Kinds keep their places,** and a new one comes last. -/
theorem map_kind_place (rule : Rule K) (rules : List (Rule K)) :
    (place rule rules).map Rule.kind =
      if rule.kind ∈ rules.map Rule.kind then rules.map Rule.kind
      else rules.map Rule.kind ++ [rule.kind] := by
  induction rules with
  | nil => rfl
  | cons r rest ih =>
    unfold place
    by_cases hr : r.kind = rule.kind
    · simp [hr]
    · have hne : ¬rule.kind = r.kind := fun h => hr h.symm
      rw [if_neg hr, List.map_cons, ih]
      by_cases hmem : rule.kind ∈ rest.map Rule.kind <;> simp [hmem, hne]

/-- What stands in the row after a registration is the rule, or it stood there before and is of
another kind. -/
theorem mem_place {rule r : Rule K} {rules : List (Rule K)} (hnodup : (rules.map Rule.kind).Nodup)
    (hr : r ∈ place rule rules) : r = rule ∨ (r ∈ rules ∧ r.kind ≠ rule.kind) := by
  induction rules with
  | nil => exact .inl (List.mem_singleton.1 hr)
  | cons head rest ih =>
    rw [List.map_cons, List.nodup_cons] at hnodup
    obtain ⟨hhead, hrest⟩ := hnodup
    unfold place at hr
    by_cases hkind : head.kind = rule.kind
    · rw [if_pos hkind] at hr
      rcases List.mem_cons.1 hr with rfl | hmem
      · exact .inl rfl
      · -- the overwritten slot was the only one of its kind
        refine .inr ⟨List.mem_cons_of_mem _ hmem, ?_⟩
        intro heq
        apply hhead
        rw [hkind, ← heq]
        exact List.mem_map_of_mem hmem
    · rw [if_neg hkind] at hr
      rcases List.mem_cons.1 hr with rfl | hmem
      · exact .inr ⟨List.mem_cons_self, hkind⟩
      · rcases ih hrest hmem with h | ⟨h, hne⟩
        · exact .inl h
        · exact .inr ⟨List.mem_cons_of_mem _ h, hne⟩

/-- The kinds of a row with one more rule registered, without the repeated ones. -/
theorem eraseDups_concat (kinds : List K) (kind : K) :
    (kinds ++ [kind]).eraseDups =
      if kind ∈ kinds then kinds.eraseDups else kinds.eraseDups ++ [kind] := by
  have hone : [kind].eraseDups = [kind] := by simp [List.eraseDups_cons]
  rw [List.eraseDups_append]
  by_cases h : kind ∈ kinds <;> simp [List.removeAll, h, hone]

end

/-! ## The first slot that opens a text -/

theorem begins_iff {r : Rule K} {text : Text} :
    r.Begins text ↔ ∃ n, r.opens text = some (n + 1) := by
  constructor
  · rintro ⟨n, hpos, hn⟩
    obtain ⟨m, rfl⟩ : ∃ m, n = m + 1 := ⟨n - 1, by omega⟩
    exact ⟨m, hn⟩
  · rintro ⟨n, hn⟩
    exact ⟨n + 1, by omega, hn⟩

/-- A tag opens where some rule opens one. -/
theorem opening?_eq_none_iff_begins {s : Ruleset K} {text : Text} :
    s.opening? text = none ↔ ∀ r ∈ s.rules, ¬r.Begins text := by
  rw [opening?_eq_none_iff]
  simp only [begins_iff, not_exists, ne_eq]

/-- **The tag that opens a text is that of the first slot whose rule opens it.** A rule that
reports an empty delimiter is passed over. -/
theorem opening?_eq_some_iff {s : Ruleset K} {text : Text} {o : Opening K} :
    s.opening? text = some o ↔ s.rules[o.index]? = some o.rule ∧
      o.rule.opens text = some o.length ∧
      ∀ i < o.index, ∀ r, s.rules[i]? = some r → ¬r.Begins text := by
  constructor
  · intro h
    obtain ⟨before, after, hrules, hindex, hopens, hbefore⟩ := opening?_eq_some h
    refine ⟨getElem?_index h, hopens, ?_⟩
    intro i hi r hr hbegins
    have hmem : r ∈ before := by
      rw [hrules, List.getElem?_append_left (by omega)] at hr
      exact List.mem_of_getElem? hr
    obtain ⟨n, hn⟩ := begins_iff.1 hbegins
    exact hbefore r hmem n hn
  · rintro ⟨hslot, hopens, hfirst⟩
    have hbegins : o.rule.Begins text := ⟨o.length, o.positive, hopens⟩
    cases hfound : s.opening? text with
    | none => exact absurd hbegins (opening?_eq_none_iff_begins.1 hfound _ (List.mem_of_getElem? hslot))
    | some found =>
      obtain ⟨before, after, hrules, hindex, hfopens, hbefore⟩ := opening?_eq_some hfound
      have hfslot := getElem?_index hfound
      -- neither of the two slots stands before the other
      have hle : o.index ≤ found.index := by
        by_contra hlt
        exact hfirst found.index (by omega) found.rule hfslot ⟨found.length, found.positive, hfopens⟩
      have hge : found.index ≤ o.index := by
        by_contra hlt
        have hmem : o.rule ∈ before := by
          rw [hrules, List.getElem?_append_left (by omega)] at hslot
          exact List.mem_of_getElem? hslot
        obtain ⟨n, hn⟩ := begins_iff.1 hbegins
        exact hbefore _ hmem n hn
      have hsame : found.index = o.index := by omega
      rw [hsame, hslot] at hfslot
      have hrule : o.rule = found.rule := Option.some.inj hfslot
      rw [← hrule, hopens] at hfopens
      have hlength : o.length = found.length := Option.some.inj hfopens
      obtain ⟨index, rule, length, positive⟩ := found
      obtain ⟨index', rule', length', positive'⟩ := o
      simp_all

variable [DecidableEq K] [Taxonomy K]

/-! ## One registration -/

/-- Whether a ruleset takes rules for a kind. -/
def takes (s : Ruleset K) (kind : K) : Bool := kind ≠ s.literalKind && kind ≠ s.groupKind

variable {s : Ruleset K} {rule : Rule K}

omit [Taxonomy K] in
theorem takes_iff {kind : K} :
    s.takes kind = true ↔ ¬(kind = s.literalKind ∨ kind = s.groupKind) := by
  simp [takes]

/-- A rule for a kind that may have one is placed. -/
theorem register_of_takes (h : s.takes rule.kind = true) :
    s.register rule = .ok { s with rules := place rule s.rules } := by
  unfold register
  rw [if_neg (takes_iff.1 h)]

/-- A rule for the kind of literals or of groups is refused. -/
theorem register_of_not_takes (h : ¬s.takes rule.kind = true) :
    s.register rule = .error (reserved rule.kind) := by
  unfold register
  rw [takes_iff, Classical.not_not] at h
  rw [if_pos h]
  rfl

theorem after_eq (rule : Rule K) (s : Ruleset K) :
    after rule s = if s.takes rule.kind then { s with rules := place rule s.rules } else s := by
  by_cases h : s.takes rule.kind = true
  · rw [if_pos h]
    exact Calls.after_of_ok (register_of_takes h)
  · rw [if_neg h]
    exact Calls.after_of_error (register_of_not_takes h)

/-! ## Registrations in a row -/

/-- The registrations that a ruleset accepts. -/
def accepted (s : Ruleset K) (calls : List (Rule K)) : List (Rule K) :=
  calls.filter fun rule => s.takes rule.kind

/-- The slots of a ruleset after some registrations. -/
structure Slots (literalKind groupKind : K) (calls : List (Rule K)) (s : Ruleset K) : Prop where
  literalKind_eq : s.literalKind = literalKind
  groupKind_eq : s.groupKind = groupKind
  /-- No kind has two slots. -/
  distinct : (s.rules.map Rule.kind).Nodup
  /-- Neither literals nor groups have one. -/
  unreserved : ∀ r ∈ s.rules, r.kind ≠ literalKind ∧ r.kind ≠ groupKind
  /-- The kinds stand in the order in which each was first accepted. -/
  order : s.rules.map Rule.kind = ((s.accepted calls).map Rule.kind).eraseDups
  /-- A slot holds the rule that was last accepted for its kind. -/
  latest : ∀ r ∈ s.rules, ∃ before after,
    s.accepted calls = before ++ r :: after ∧ ∀ r' ∈ after, r'.kind ≠ r.kind

omit [Taxonomy K] in
theorem slots_empty (literalKind groupKind : K) :
    Slots literalKind groupKind [] (.empty literalKind groupKind) :=
  ⟨rfl, rfl, List.nodup_nil, fun _ hr => absurd hr List.not_mem_nil, rfl,
    fun _ hr => absurd hr List.not_mem_nil⟩

omit [Taxonomy K] in
theorem accepted_concat (s : Ruleset K) (calls : List (Rule K)) (rule : Rule K) :
    s.accepted (calls ++ [rule]) =
      if s.takes rule.kind then s.accepted calls ++ [rule] else s.accepted calls := by
  unfold accepted
  rw [List.filter_append]
  by_cases h : s.takes rule.kind = true <;> simp [h]

namespace Slots

variable {literalKind groupKind : K} {calls : List (Rule K)}

omit [Taxonomy K] in
/-- **An accepted rule leaves one slot for each kind,** all in their places. -/
theorem placed (h : Slots literalKind groupKind calls s) (htakes : s.takes rule.kind = true) :
    Slots literalKind groupKind (calls ++ [rule]) { s with rules := place rule s.rules } := by
  have haccepted : s.accepted (calls ++ [rule]) = s.accepted calls ++ [rule] := by
    rw [accepted_concat, if_pos htakes]
  have hkinds := map_kind_place rule s.rules
  have hmem : ∀ r ∈ place rule s.rules, r = rule ∨ (r ∈ s.rules ∧ r.kind ≠ rule.kind) :=
    fun r hr => mem_place h.distinct hr
  refine ⟨h.literalKind_eq, h.groupKind_eq, ?_, ?_, ?_, ?_⟩
  · show ((place rule s.rules).map Rule.kind).Nodup
    rw [hkinds]
    by_cases hk : rule.kind ∈ s.rules.map Rule.kind
    · rw [if_pos hk]
      exact h.distinct
    · rw [if_neg hk]
      rw [← List.concat_eq_append]
      exact h.distinct.concat hk
  · intro r hr
    rcases hmem r hr with rfl | ⟨hold, -⟩
    · rw [← h.literalKind_eq, ← h.groupKind_eq]
      simpa [takes] using htakes
    · exact h.unreserved r hold
  · show (place rule s.rules).map Rule.kind = ((s.accepted (calls ++ [rule])).map Rule.kind).eraseDups
    rw [hkinds, haccepted, List.map_append, List.map_singleton, eraseDups_concat, h.order]
    simp only [List.mem_eraseDups]
  · intro r hr
    show ∃ before after, s.accepted (calls ++ [rule]) = before ++ r :: after ∧ _
    rw [haccepted]
    rcases hmem r hr with rfl | ⟨hold, hne⟩
    · exact ⟨s.accepted calls, [], rfl, fun _ hr' => absurd hr' List.not_mem_nil⟩
    · obtain ⟨before, later, heq, hlater⟩ := h.latest r hold
      refine ⟨before, later ++ [rule], by rw [heq, List.append_assoc]; rfl, ?_⟩
      intro r' hr'
      rcases List.mem_append.1 hr' with hr' | hr'
      · exact hlater r' hr'
      · rw [List.mem_singleton.1 hr']
        exact hne.symm

/-- **One more registration,** accepted or not, leaves one slot for each kind. -/
theorem after (h : Slots literalKind groupKind calls s) (rule : Rule K) :
    Slots literalKind groupKind (calls ++ [rule]) (Calls.after rule s) := by
  rw [after_eq]
  by_cases htakes : s.takes rule.kind = true
  · rw [if_pos htakes]
    exact h.placed htakes
  · have haccepted : s.accepted (calls ++ [rule]) = s.accepted calls := by
      rw [accepted_concat, if_neg htakes]
    have horder := h.order
    have hlatest := h.latest
    rw [← haccepted] at horder hlatest
    rw [if_neg htakes]
    exact ⟨h.literalKind_eq, h.groupKind_eq, h.distinct, h.unreserved, horder, hlatest⟩

end Slots

theorem slots_replay (literalKind groupKind : K) (calls : List (Rule K)) :
    Slots literalKind groupKind calls (replay (empty literalKind groupKind) calls) := by
  -- from the last call on, as a call writes into what the calls before it left
  induction calls using List.reverseRecOn with
  | nil => exact slots_empty literalKind groupKind
  | append_singleton calls rule ih =>
    rw [replay_concat]
    exact ih.after rule

/-- A kind that has a slot keeps it. -/
theorem kinds_after (rule : Rule K) (s : Ruleset K) :
    s.rules.map Rule.kind <+: (after rule s).rules.map Rule.kind := by
  have hkinds := map_kind_place rule s.rules
  rw [after_eq]
  by_cases htakes : s.takes rule.kind = true
  · rw [if_pos htakes, hkinds]
    by_cases hk : rule.kind ∈ s.rules.map Rule.kind
    · rw [if_pos hk]
    · rw [if_neg hk]
      exact List.prefix_append _ _
  · rw [if_neg htakes]

theorem kinds_replay (s : Ruleset K) (calls : List (Rule K)) :
    s.rules.map Rule.kind <+: (replay s calls).rules.map Rule.kind := by
  induction calls generalizing s with
  | nil => exact List.prefix_refl _
  | cons rule rest ih => exact (kinds_after rule s).trans (ih (after rule s))

/-! ## The registry -/

/-- **A ruleset after some registrations:** its slots, what further registrations do, and which
tag it finds at the start of a text. -/
structure Registered (literalKind groupKind : K) (calls : List (Rule K)) (s : Ruleset K) : Prop
    extends Slots literalKind groupKind calls s where
  /-- A rule is accepted unless its kind is that of literals or groups. -/
  accepts : ∀ rule, rule.kind ≠ literalKind → rule.kind ≠ groupKind →
    write rule s = .ok () (after rule s) ∧ s.register rule = .ok (after rule s)
  /-- A rule that is refused changes nothing. -/
  refuses : ∀ rule, rule.kind = literalKind ∨ rule.kind = groupKind →
    write rule s = .error (reserved rule.kind) s ∧ s.register rule = .error (reserved rule.kind)
  /-- Kinds keep their places for good. -/
  keeps : ∀ later : List (Rule K), s.rules.map Rule.kind <+: (replay s later).rules.map Rule.kind
  /-- A text is opened by the first slot whose rule opens it. -/
  opens : ∀ text o, s.opening? text = some o ↔ s.rules[o.index]? = some o.rule ∧
    o.rule.opens text = some o.length ∧ ∀ i < o.index, ∀ r, s.rules[i]? = some r → ¬r.Begins text
  /-- A text starts with literal text if no rule opens it. -/
  plain : ∀ text, s.opening? text = none ↔ ∀ r ∈ s.rules, ¬r.Begins text

theorem Slots.complete {literalKind groupKind : K} {calls : List (Rule K)}
    (h : Slots literalKind groupKind calls s) : Registered literalKind groupKind calls s := by
  obtain rfl := h.literalKind_eq
  obtain rfl := h.groupKind_eq
  refine ⟨h, ?_, ?_, kinds_replay s, fun _ _ => opening?_eq_some_iff,
    fun _ => opening?_eq_none_iff_begins⟩
  · intro rule hl hg
    have htakes := takes_iff.2 (not_or.2 ⟨hl, hg⟩)
    rw [write_eq, after_eq, if_pos htakes, register_of_takes htakes]
    exact ⟨rfl, rfl⟩
  · intro rule hreserved
    have hrefused := register_of_not_takes fun htakes => takes_iff.1 htakes hreserved
    rw [write_eq, hrefused]
    exact ⟨rfl, rfl⟩

/-- **A ruleset holds one slot for each kind,** whatever was registered and refused: in the order
in which the kinds were first accepted, each with the rule that was accepted last. The tag that
opens a text is that of the first slot that opens it. -/
theorem registered (literalKind groupKind : K) (calls : List (Rule K)) :
    Registered literalKind groupKind calls (replay (empty literalKind groupKind) calls) := by
  have hslots := slots_replay literalKind groupKind calls
  exact hslots.complete

/-- A rule that is registered again keeps its place, and a refused one leaves no trace. -/
example :
    let pair := fun kind : Template.Kind => Rule.pair kind ['<'] ['>']
    (replay (empty Template.Kind.text Template.Kind.document)
      [pair .var, pair .text, pair .filter, pair .var, pair .document]).rules.map Rule.kind =
        [.var, .filter] := by
  rfl

end Ruleset

end Bracketry
