import Bracketry.Proofs.Declared
import Bracketry.Proofs.Mandatory

/-!
# The kinds of a declaration

The positions in the table of a resolved declaration are kinds. To ask whether one kind is
of another, the way up is searched without a bound, so it had better end. It does, because
the declaration was checked: every way up in its table ends, and the number of steps until
then is a height for the kinds.

* `Taxonomy.search_iff`: in a hierarchy the search ends, with the answer of `isA`.
* `Taxonomy.orderly`: kinds with names of their own below their base are in order.
* `KindTable.taxonomy`: the hierarchy of a table in which every way up ends.
* `Declaration.resolved_orderly`: **the kinds of a resolved declaration are in order.**
-/

namespace Bracketry

/-! ## Searching the way up -/

namespace Taxonomy

/-- The search for a kind on the way up. It stands at a kind or, past the top, at none, and
ends with an answer. A search that does not end has no answer. -/
inductive Search {K : Type} (above : K → Option K) (a : K) : Option K → Bool → Prop
  | found : Search above a (some a) true
  | up {k : K} {answer : Bool} : k ≠ a → Search above a (above k) answer →
      Search above a (some k) answer
  | past : Search above a none false

variable {K : Type}

/-- A search has at most one answer. -/
theorem Search.unique {above : K → Option K} {a : K} {place : Option K} {answer answer' : Bool}
    (h : Search above a place answer) (h' : Search above a place answer') : answer = answer' := by
  induction h with
  | found =>
    cases h' with
    | found => rfl
    | up hne _ => exact absurd rfl hne
  | up hne _ ih =>
    cases h' with
    | found => exact absurd rfl hne
    | up _ h' => exact ih h'
  | past =>
    cases h'
    rfl

variable [DecidableEq K] [Taxonomy K]

/-- The search from a kind ends with the answer whether the kind is of the other. -/
theorem search_isA (k a : K) : Search parent a (some k) (isA k a) := by
  induction hh : height k using Nat.strong_induction_on generalizing k with
  | _ n ih =>
    by_cases hka : k = a
    · rw [hka, isA_refl]
      exact .found
    · have hne : (a == k) = false := beq_eq_false_iff_ne.2 (Ne.symm hka)
      refine .up hka ?_
      rw [isA_eq, hne, Bool.false_or]
      cases hp : parent k with
      | none => exact .past
      | some p => exact ih (height p) (hh ▸ height_parent k p hp) p rfl

/-- **The search from a kind ends,** and only with the answer whether the kind is of the
other. -/
theorem search_iff {k a : K} {answer : Bool} :
    Search parent a (some k) answer ↔ answer = isA k a := by
  constructor
  · intro h
    exact h.unique (search_isA k a)
  · rintro rfl
    exact search_isA k a

/-! ## Kinds in order -/

theorem isA_antisymm {a b : K} (hab : isA a b = true) (hba : isA b a = true) : a = b := by
  by_contra hne
  have hlt := height_lt_of_isA hab (Ne.symm hne)
  have hgt := height_lt_of_isA hba hne
  omega

/-- Where only the base has no parent, every kind is of the base. -/
theorem isA_base {b : K} (hroot : ∀ k : K, parent k = none → k = b) (k : K) : isA k b = true := by
  induction hh : height k using Nat.strong_induction_on generalizing k with
  | _ n ih =>
    cases hp : parent k with
    | none => rw [hroot k hp, isA_refl]
    | some p =>
      have hbelow := ih (height p) (hh ▸ height_parent k p hp) p rfl
      rw [isA_eq, hp, Bool.or_eq_true]
      exact .inr hbelow

/-- Where a kind that all kinds are of is the base, a fresh set allows every kind. -/
theorem fresh_allows {b : K} (hbase : base = some b) (hall : ∀ k : K, isA k b = true) (k : K) :
    Constraints.fresh.allows k = true := by
  have hallowed : b ∈ (Constraints.fresh : Constraints K).allowedKinds := by
    refine List.mem_filter.2 ⟨mem_ascending b, ?_⟩
    rw [Constraints.fresh, hbase]
    exact beq_self_eq_true _
  exact List.any_eq_true.2 ⟨b, hallowed, hall k⟩

/-- Where names differ, a kind is found by its name. -/
theorem ofName?_name (hnames : Function.Injective (name : K → String)) (k : K) :
    ofName? (name k) = some k := by
  unfold ofName?
  cases hfind : all.find? fun other : K => name other == name k with
  | none =>
    have hnot := List.find?_eq_none.1 hfind k (mem_all k)
    exact absurd (beq_self_eq_true _) hnot
  | some other =>
    have hsame := List.find?_some hfind
    rw [hnames (beq_iff_eq.1 hsame)]

variable (K) in
/-- The kinds of a hierarchy are in order. A search on the way up ends with the answer of
`isA`, which orders the kinds so that those above a kind form a chain. A declared base is
above all kinds, so that a fresh set allows every kind, and a kind is found by its name. -/
structure Orderly : Prop where
  search_iff : ∀ (k a : K) (answer : Bool), Search parent a (some k) answer ↔ answer = isA k a
  refl : ∀ k : K, isA k k = true
  trans : ∀ a b c : K, isA a b = true → isA b c = true → isA a c = true
  antisymm : ∀ a b : K, isA a b = true → isA b a = true → a = b
  chain : ∀ k a b : K, isA k a = true → isA k b = true → isA a b = true ∨ isA b a = true
  base : ∀ b : K, base = some b → ∀ k : K, isA k b = true
  fresh : ∀ b : K, Taxonomy.base = some b → ∀ k : K, Constraints.fresh.allows k = true
  named : ∀ k : K, ofName? (name k) = some k

/-- **Kinds with names of their own below their base are in order.** -/
theorem orderly (hnames : Function.Injective (name : K → String))
    (hroot : ∀ b : K, base = some b → ∀ k : K, parent k = none → k = b) : Orderly K where
  search_iff _ _ _ := search_iff
  refl := isA_refl
  trans _ _ _ := isA_trans
  antisymm _ _ := isA_antisymm
  chain _ _ _ := isA_or_isA
  base b hb := isA_base (hroot b hb)
  fresh b hb := fresh_allows hb (isA_base (hroot b hb))
  named := ofName?_name hnames

end Taxonomy

/-! ## Tables as hierarchies -/

namespace KindTable

open Declaration (rise)

/-- The kinds of a table are the positions of its cases. -/
abbrev Kind (t : KindTable) : Type := Fin t.cases.length

variable {t : KindTable}

/-- The kind at a position, if a case stands there. -/
def kindAt? (t : KindTable) (place : Option Nat) : Option t.Kind :=
  place.bind fun i => if h : i < t.cases.length then some ⟨i, h⟩ else none

def kindName (t : KindTable) (k : t.Kind) : String := t.cases[k].name

/-- The kind that a kind extends. -/
def kindParent? (t : KindTable) (k : t.Kind) : Option t.Kind := t.kindAt? t.parents[k.val]?.join

/-- The kind that is the base. -/
def kindBase? (t : KindTable) : Option t.Kind := t.kindAt? t.base

/-- Every way up from a kind ends. -/
def Grounded (t : KindTable) : Prop := ∀ k : t.Kind, ∃ n, (rise t.parents)^[n] (some k.val) = none

theorem kindAt?_eq_some {place : Option Nat} {k : t.Kind} (h : t.kindAt? place = some k) :
    place = some k.val := by
  obtain ⟨i, rfl, hi⟩ := Option.bind_eq_some_iff.1 h
  by_cases hlt : i < t.cases.length
  · rw [dif_pos hlt] at hi
    cases hi
    rfl
  · rw [dif_neg hlt] at hi
    cases hi

/-- The number of steps until the way up from a kind ends. -/
def kindHeight (h : t.Grounded) (k : t.Kind) : Nat := Nat.find (h k)

theorem kindHeight_lt (h : t.Grounded) {k p : t.Kind} (hp : t.kindParent? k = some p) :
    kindHeight h p < kindHeight h k := by
  have habove : ∀ n, (rise t.parents)^[n + 1] (some k.val) = (rise t.parents)^[n] (some p.val) := by
    intro n
    rw [Function.iterate_succ_apply, rise, Option.bind_some, kindAt?_eq_some hp]
  have hends : ∃ n, (rise t.parents)^[n + 1] (some k.val) = none := by
    obtain ⟨n, hn⟩ := h p
    exact ⟨n, (habove n).trans hn⟩
  have hsucc : Nat.find (h k) = Nat.find hends + 1 := Nat.find_comp_succ (h k) hends (by simp)
  have hle : Nat.find (h p) ≤ Nat.find hends :=
    Nat.find_min' (h p) ((habove _).symm.trans (Nat.find_spec hends))
  unfold kindHeight
  omega

/-- The hierarchy of a table in which every way up ends. -/
@[reducible]
def taxonomy (t : KindTable) (h : t.Grounded) : Taxonomy t.Kind where
  all := List.finRange t.cases.length
  mem_all := List.mem_finRange
  all_nodup := List.nodup_finRange _
  base := t.kindBase?
  name := t.kindName
  parent := t.kindParent?
  height := kindHeight h
  height_parent _ _ := kindHeight_lt h

end KindTable

namespace Declaration

variable {d : Declaration}

/-- In the table of a well-formed declaration every way up ends. -/
theorem WellFormed.grounded (h : d.WellFormed) : d.table.Grounded := by
  intro k
  have hk : k.val < d.table.parents.length := by
    rw [length_parents, ← List.length_map DeclaredCase.read]
    exact k.isLt
  have hacyclic : ∀ i, ¬Relation.TransGen (Above d.table.parents) i i := by
    rw [above_table]
    exact h.acyclic
  exact ⟨_, ends_of_comesTo d.inRange_table ((comesTo_eq_false_iff d.inRange_table).2 hacyclic) hk⟩

theorem WellFormed.injective_name (h : d.WellFormed) : Function.Injective d.table.kindName := by
  intro k k' hname
  have hnodup : (d.table.cases.map KindCase.name).Nodup := by
    rw [table, List.map_map]
    exact h.names
  have hk : k.val < (d.table.cases.map KindCase.name).length := by
    rw [List.length_map]
    exact k.isLt
  have hk' : k'.val < (d.table.cases.map KindCase.name).length := by
    rw [List.length_map]
    exact k'.isLt
  have hget : (d.table.cases.map KindCase.name)[k.val] = (d.table.cases.map KindCase.name)[k'.val] := by
    rw [List.getElem_map, List.getElem_map]
    exact hname
  exact Fin.ext ((List.Nodup.getElem_inj_iff hnodup).1 hget)

/-- A kind of a table extends what its case says. -/
theorem parentAt_of_kindParent? {k : d.table.Kind} (hk : d.table.kindParent? k = none) :
    d.parentAt k.val = none := by
  rw [KindTable.kindParent?, join_parents] at hk
  cases hparent : d.parentAt k.val with
  | none => rfl
  | some p =>
    have hp : p < d.table.cases.length := by
      rw [table, List.length_map]
      exact parentAt_lt hparent
    rw [hparent, KindTable.kindAt?, Option.bind_some, dif_pos hp] at hk
    cases hk

/-- Only the base extends nothing, if there is one. -/
theorem WellFormed.eq_base (h : d.WellFormed) {b k : d.table.Kind}
    (hb : d.table.kindBase? = some b) (hk : d.table.kindParent? k = none) : k = b := by
  have hbase : d.cases.findIdx? DeclaredCase.isBase = some b.val := KindTable.kindAt?_eq_some hb
  have hlt : k.val < d.cases.length := by
    rw [← List.length_map DeclaredCase.read]
    exact k.isLt
  have hi : d.cases[k.val]? = some d.cases[k.val] := List.getElem?_eq_getElem hlt
  have hnone := parentAt_of_kindParent? hk
  cases hparent : d.cases[k.val].parent? with
  | some ident =>
    -- what a case is marked to extend is there
    obtain ⟨other, hmem, hident⟩ := h.parents _ (List.getElem_mem hlt) ident hparent
    rw [parentAt_of_marked hi hparent] at hnone
    have hnot := List.findIdx?_eq_none_iff.1 hnone other hmem
    rw [hident, beq_self_eq_true] at hnot
    cases hnot
  | none =>
    rw [parentAt_of_unmarked (List.pairwise_map.2 h.base_single) hi hparent, hbase] at hnone
    by_cases hbk : some b.val = some k.val
    · exact Fin.ext (Option.some.inj hbk).symm
    · rw [if_neg hbk] at hnone
      cases hnone

/-- **The kinds of a resolved declaration are in order.** -/
theorem resolved_orderly {t : KindTable} (h : d.resolve = .ok t) :
    ∃ hg : t.Grounded, @Taxonomy.Orderly t.Kind _ (t.taxonomy hg) := by
  obtain ⟨hd, rfl⟩ := resolve_eq_ok_iff.1 h
  refine ⟨hd.grounded, ?_⟩
  exact @Taxonomy.orderly _ _ (d.table.taxonomy hd.grounded) hd.injective_name
    fun b hb k hk => hd.eq_base hb hk

/-- Kinds with a base, a kind that is renamed, and one that extends it. -/
def blocks : Declaration where
  shape := .enumeration
  name := "Kind"
  isGeneric := false
  cases := [⟨"Text", [], false⟩, ⟨"Filter", [.parent "Block"], false⟩, ⟨"Node", [.base], false⟩,
    ⟨"Block", [.rename "block"], false⟩]

theorem resolved_orderly_blocks : ∃ t, blocks.resolve = .ok t ∧
    t.names = ["Text", "Filter", "Node", "block"] ∧ t.parents = [some 2, some 3, none, some 2] ∧
    ∃ hg : t.Grounded, @Taxonomy.Orderly t.Kind _ (t.taxonomy hg) := by
  have h : blocks.resolve = .ok blocks.table := by rfl
  exact ⟨blocks.table, h, rfl, rfl, resolved_orderly h⟩

end Declaration

end Bracketry
