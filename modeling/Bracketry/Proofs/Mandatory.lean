import Bracketry.Proofs.Branches

/-!
# Which descendants meet the mandatory kinds

A check goes through the descendants of a node once. Each descendant meets the least
unmet kind that it is of, and what it met is never given back. The mandatory kinds can be met at all if each of them can be assigned a descendant
of its own that is of it.

* `Taxonomy.isA_trans`, `Taxonomy.isA_or_isA`: kinds form a forest.
* `Constraints.checkFrom_eq`: a check in which every descendant is allowed depends on
  what one pass leaves unmet.
* `Meetable.of_meet`, `Meetable.meet_of`: what one descendant does to an assignment.
* `check_meets`: **a check that passes has an assignment,** and one that has an assignment
  passes if no mandatory kind stands before one that extends it.
* `specificFirst_iff`: that condition is the right one for a single pass.
* `Template.check_refuses_meetable`: without it a check may refuse what can be met.
-/

namespace Bracketry

variable {K : Type} [DecidableEq K] [Taxonomy K]

/-! ## Kinds form a forest -/

namespace Taxonomy

theorem isA_iff {a b : K} : isA a b = true ↔ b ∈ lineage a := decide_eq_true_iff

theorem isA_refl (a : K) : isA a a = true := by
  rw [isA_iff, lineage_eq]
  exact List.mem_cons_self

/-- The way up from a kind goes on like that of any kind on it. -/
theorem lineage_suffix {a b : K} (h : isA a b = true) : lineage b <:+ lineage a := by
  induction hh : height a using Nat.strong_induction_on generalizing a with
  | _ n ih =>
    rw [isA_iff, lineage_eq] at h
    rcases List.mem_cons.1 h with rfl | h
    · exact List.suffix_rfl
    · cases hp : parent a with
      | none => rw [hp] at h; cases h
      | some p =>
        rw [hp] at h
        have hlt : height p < n := hh ▸ height_parent a p hp
        have hsuffix := ih (height p) hlt (isA_iff.2 h) rfl
        rw [lineage_eq a, hp]
        exact hsuffix.trans (List.suffix_cons a _)

theorem isA_trans {a b c : K} (hab : isA a b = true) (hbc : isA b c = true) : isA a c = true := by
  rw [isA_iff] at hbc ⊢
  exact (lineage_suffix hab).subset hbc

/-- Of two kinds that a kind is of, one is of the other. -/
theorem isA_or_isA {k a b : K} (ha : isA k a = true) (hb : isA k b = true) :
    isA a b = true ∨ isA b a = true := by
  rcases List.suffix_or_suffix_of_suffix (lineage_suffix ha) (lineage_suffix hb) with h | h
  · exact .inr (isA_iff.2 (h.subset (isA_iff.1 (isA_refl a))))
  · exact .inl (isA_iff.2 (h.subset (isA_iff.1 (isA_refl b))))

/-- A kind is higher than the others that it is of. -/
theorem height_lt_of_isA {a b : K} (h : isA a b = true) (hne : b ≠ a) : height b < height a := by
  induction hh : height a using Nat.strong_induction_on generalizing a with
  | _ n ih =>
    rw [isA_iff, lineage_eq] at h
    have htail := (List.mem_cons.1 h).resolve_left hne
    cases hp : parent a with
    | none => rw [hp] at htail; cases htail
    | some p =>
      rw [hp] at htail
      have hlt : height p < n := hh ▸ height_parent a p hp
      by_cases hbp : b = p
      · rw [hbp]
        exact hlt
      · have hbelow := ih (height p) hlt (isA_iff.2 htail) hbp rfl
        omega

end Taxonomy

open Taxonomy (isA isA_refl isA_trans isA_or_isA height)

/-! ## One pass over the descendants -/

namespace Constraints

/-- What descendants of some kinds leave unmet. -/
def meetAll (kinds unmet : List K) : List K := kinds.foldl (fun unmet kind => meet kind unmet) unmet

theorem meetAll_nil (kinds : List K) : meetAll kinds [] = [] := by
  induction kinds with
  | nil => rfl
  | cons kind rest ih => exact ih

/-- **A check in which every descendant is allowed depends on what one pass leaves
unmet.** -/
theorem checkFrom_eq {c : Constraints K} {container : NodeInfo} {nodes : List (Node K)}
    {unmet : List K} (h : ∀ n ∈ nodes, c.allows n.kind = true) :
    (c.checkFrom container unmet nodes).value =
      if (meetAll (nodes.map Node.kind) unmet).isEmpty then .ok ()
      else .error (.missing container ((meetAll (nodes.map Node.kind) unmet).map Taxonomy.name)) := by
  induction nodes generalizing unmet with
  | nil => rfl
  | cons n rest ih =>
    obtain ⟨hn, hrest⟩ := List.forall_mem_cons.1 h
    have hall : meetAll ((n :: rest).map Node.kind) unmet =
        meetAll (rest.map Node.kind) (meet n.kind unmet) := rfl
    rw [hall, checkFrom]
    simp only [Look.value_bind, hn, if_true]
    by_cases hdone : (!c.mandatoryKinds.isEmpty && (meet n.kind unmet).isEmpty) = true
    · -- the pass ends early, and the rest of the descendants would change nothing
      rw [if_pos hdone]
      have hnil : meet n.kind unmet = [] := by simp at hdone; exact hdone.2
      rw [hnil, meetAll_nil]
      rfl
    · rw [if_neg hdone]
      exact ih hrest

theorem check_eq {c : Constraints K} {n : Node K} (h : ∀ m ∈ n.below, c.allows m.kind = true) :
    (c.check n).value =
      if (meetAll (n.below.map Node.kind) c.mandatoryKinds).isEmpty then .ok ()
      else .error (.missing n.info
        ((meetAll (n.below.map Node.kind) c.mandatoryKinds).map Taxonomy.name)) :=
  checkFrom_eq h

/-- Of the unmet kinds a descendant meets the first that it is of, or none. -/
theorem meet_cases (kind : K) (unmet : List K) :
    (∃ before a after, unmet = before ++ a :: after ∧ isA kind a = true ∧
        (∀ b ∈ before, isA kind b = false) ∧ meet kind unmet = unmet.erase a) ∨
      ((∀ b ∈ unmet, isA kind b = false) ∧ meet kind unmet = unmet) := by
  unfold meet
  cases hfind : unmet.find? (isA kind) with
  | none =>
    refine .inr ⟨fun b hb => ?_, rfl⟩
    simpa using List.find?_eq_none.1 hfind b hb
  | some a =>
    obtain ⟨ha, before, after, hunmet, hbefore⟩ := List.find?_eq_some_iff_append.1 hfind
    refine .inl ⟨before, a, after, hunmet, ha, fun b hb => ?_, rfl⟩
    simpa using hbefore b hb

/-- What stays unmet stays in its order. -/
theorem meet_sublist (kind : K) (unmet : List K) : (meet kind unmet).Sublist unmet := by
  rcases meet_cases kind unmet with ⟨_, a, _, -, -, -, hmeet⟩ | ⟨-, hmeet⟩
  · rw [hmeet]
    exact List.erase_sublist
  · rw [hmeet]

end Constraints

open Constraints (meet meetAll meetAll_nil meet_cases)

/-! ## Assignments -/

/-- Each of some kinds can be assigned a descendant of its own that is of it. The
descendants are given by their kinds. -/
def Meetable (unmet kinds : List K) : Prop :=
  ∃ place : K → Nat, (∀ a ∈ unmet, ∀ b ∈ unmet, place a = place b → a = b) ∧
    ∀ a ∈ unmet, ∃ kind, kinds[place a]? = some kind ∧ isA kind a = true

/-- No kind stands before one that extends it. -/
def SpecificFirst (unmet : List K) : Prop := unmet.Pairwise fun a b => isA b a = false

namespace Meetable

variable {kind : K} {unmet kinds : List K}

theorem nil_left (kinds : List K) : Meetable [] kinds :=
  ⟨fun _ => 0, fun _ ha => absurd ha List.not_mem_nil, fun _ ha => absurd ha List.not_mem_nil⟩

/-- Without descendants only no kind at all can be met. -/
theorem eq_nil (h : Meetable unmet []) : unmet = [] := by
  obtain ⟨place, -, hplace⟩ := h
  cases unmet with
  | nil => rfl
  | cons a rest =>
    obtain ⟨k, hk, -⟩ := hplace a List.mem_cons_self
    cases hk

/-- The first descendant is not needed if nothing is assigned to it. -/
theorem of_pos {place : K → Nat} (hpos : ∀ a ∈ unmet, place a ≠ 0)
    (hinj : ∀ a ∈ unmet, ∀ b ∈ unmet, place a = place b → a = b)
    (hplace : ∀ a ∈ unmet, ∃ k, (kind :: kinds)[place a]? = some k ∧ isA k a = true) :
    Meetable unmet kinds := by
  have hsucc : ∀ a ∈ unmet, place a = (place a - 1) + 1 := fun a ha =>
    (Nat.succ_pred_eq_of_ne_zero (hpos a ha)).symm
  refine ⟨fun a => place a - 1, ?_, ?_⟩
  · intro a ha b hb hab
    dsimp only at hab
    have hsa := hsucc a ha
    have hsb := hsucc b hb
    exact hinj a ha b hb (by omega)
  · intro a ha
    obtain ⟨k, hk, hka⟩ := hplace a ha
    rw [hsucc a ha, List.getElem?_cons_succ] at hk
    exact ⟨k, hk, hka⟩

/-- A further descendant does not hurt. -/
theorem skip (h : Meetable unmet kinds) : Meetable unmet (kind :: kinds) := by
  obtain ⟨place, hinj, hplace⟩ := h
  refine ⟨fun b => place b + 1, ?_, ?_⟩
  · intro b hb c hc hbc
    exact hinj b hb c hc (Nat.succ.inj hbc)
  · intro b hb
    obtain ⟨k, hk, hka⟩ := hplace b hb
    exact ⟨k, by simpa using hk, hka⟩

/-- A further descendant can be assigned to a kind that it is of. -/
theorem extend {rest : List K} {a : K} (ha : isA kind a = true)
    (hrest : ∀ b ∈ unmet, b ≠ a → b ∈ rest) (h : Meetable rest kinds) :
    Meetable unmet (kind :: kinds) := by
  obtain ⟨place, hinj, hplace⟩ := h
  refine ⟨fun b => if b = a then 0 else place b + 1, ?_, ?_⟩
  · intro b hb c hc hbc
    by_cases hba : b = a
    · by_cases hca : c = a
      · rw [hba, hca]
      · simp only [if_pos hba, if_neg hca] at hbc
        omega
    · by_cases hca : c = a
      · simp only [if_neg hba, if_pos hca] at hbc
        omega
      · simp only [if_neg hba, if_neg hca] at hbc
        exact hinj b (hrest b hb hba) c (hrest c hc hca) (by omega)
  · intro b hb
    by_cases hba : b = a
    · exact ⟨kind, by simp [hba], hba ▸ ha⟩
    · obtain ⟨k, hk, hka⟩ := hplace b (hrest b hb hba)
      exact ⟨k, by simpa [hba] using hk, hka⟩

/-- If what a descendant leaves unmet can be met by the others, then all can be met. -/
theorem of_meet (h : Meetable (meet kind unmet) kinds) : Meetable unmet (kind :: kinds) := by
  rcases meet_cases kind unmet with ⟨before, a, after, -, ha, -, hmeet⟩ | ⟨-, hmeet⟩
  · rw [hmeet] at h
    exact h.extend ha fun b hb hne => (List.mem_erase_of_ne hne).2 hb
  · rw [hmeet] at h
    exact h.skip

/-- Of two kinds that a descendant is of, the one that is met comes first, so it extends
the other. -/
theorem isA_of_first {before after : List K} {a b : K}
    (hfirst : SpecificFirst (before ++ a :: after)) (ha : isA kind a = true)
    (hbefore : ∀ b ∈ before, isA kind b = false) (hmem : b ∈ before ++ a :: after) (hne : b ≠ a)
    (hb : isA kind b = true) : isA a b = true := by
  have hafter : b ∈ after := by
    rcases List.mem_append.1 hmem with hmem | hmem
    · rw [hbefore b hmem] at hb
      cases hb
    · exact (List.mem_cons.1 hmem).resolve_left hne
  have hlate : isA b a = false :=
    (List.pairwise_cons.1 (List.pairwise_append.1 hfirst).2.1).1 b hafter
  rcases isA_or_isA ha hb with h | h
  · exact h
  · rw [hlate] at h
    cases h

/-- Where a descendant meets a kind, whoever was assigned the descendant can be given what
was assigned to that kind. -/
theorem exchange {before after : List K} {a : K} (hunmet : unmet = before ++ a :: after)
    (hnodup : unmet.Nodup) (hfirst : SpecificFirst unmet) (ha : isA kind a = true)
    (hbefore : ∀ b ∈ before, isA kind b = false) (h : Meetable unmet (kind :: kinds)) :
    Meetable (unmet.erase a) kinds := by
  obtain ⟨place, hinj, hplace⟩ := h
  have hmem : a ∈ unmet := by
    rw [hunmet]
    exact List.mem_append_right before List.mem_cons_self
  have hother : ∀ b ∈ unmet.erase a, b ≠ a ∧ b ∈ unmet := fun b => hnodup.mem_erase_iff.1
  obtain ⟨swap, hswap⟩ : ∃ swap : K → Nat, ∀ b, swap b = if place b = 0 then place a else place b :=
    ⟨_, fun _ => rfl⟩
  have hpos : ∀ b ∈ unmet.erase a, swap b ≠ 0 := by
    intro b hb hzero
    obtain ⟨hba, hb⟩ := hother b hb
    rw [hswap] at hzero
    by_cases hb0 : place b = 0
    · rw [if_pos hb0] at hzero
      exact hba (hinj b hb a hmem (hb0.trans hzero.symm))
    · rw [if_neg hb0] at hzero
      exact hb0 hzero
  have hswapinj : ∀ b ∈ unmet.erase a, ∀ c ∈ unmet.erase a, swap b = swap c → b = c := by
    intro b hb c hc hbc
    obtain ⟨hba, hb⟩ := hother b hb
    obtain ⟨hca, hc⟩ := hother c hc
    rw [hswap, hswap] at hbc
    by_cases hb0 : place b = 0
    · by_cases hc0 : place c = 0
      · exact hinj b hb c hc (hb0.trans hc0.symm)
      · rw [if_pos hb0, if_neg hc0] at hbc
        exact absurd (hinj a hmem c hc hbc).symm hca
    · by_cases hc0 : place c = 0
      · rw [if_neg hb0, if_pos hc0] at hbc
        exact absurd (hinj b hb a hmem hbc) hba
      · rw [if_neg hb0, if_neg hc0] at hbc
        exact hinj b hb c hc hbc
  have hswapof : ∀ b ∈ unmet.erase a,
      ∃ k, (kind :: kinds)[swap b]? = some k ∧ isA k b = true := by
    intro b hb
    obtain ⟨hba, hb⟩ := hother b hb
    rw [hswap]
    by_cases hb0 : place b = 0
    · obtain ⟨k, hk, hkb⟩ := hplace b hb
      rw [hb0] at hk
      cases hk
      -- the kind that was met extends the other, so what it was assigned fits the other too
      have hab : isA a b = true :=
        isA_of_first (hunmet ▸ hfirst) ha hbefore (hunmet ▸ hb) hba hkb
      obtain ⟨k, hk, hka⟩ := hplace a hmem
      rw [if_pos hb0]
      exact ⟨k, hk, isA_trans hka hab⟩
    · rw [if_neg hb0]
      exact hplace b hb
  exact of_pos hpos hswapinj hswapof

/-- **If all can be met, then what a descendant leaves unmet can be met by the others,**
as long as no kind stands before one that extends it. -/
theorem meet_of (hnodup : unmet.Nodup) (hfirst : SpecificFirst unmet)
    (h : Meetable unmet (kind :: kinds)) : Meetable (meet kind unmet) kinds := by
  rcases meet_cases kind unmet with ⟨before, a, after, hunmet, ha, hbefore, hmeet⟩ | ⟨hnone, hmeet⟩
  · rw [hmeet]
    exact exchange hunmet hnodup hfirst ha hbefore h
  · rw [hmeet]
    obtain ⟨place, hinj, hplace⟩ := h
    have hpos : ∀ b ∈ unmet, place b ≠ 0 := by
      intro b hb hzero
      obtain ⟨k, hk, hkb⟩ := hplace b hb
      rw [hzero] at hk
      cases hk
      rw [hnone b hb] at hkb
      cases hkb
    exact of_pos hpos hinj hplace

end Meetable

/-! ## Checks -/

variable {kinds unmet : List K}

/-- If one pass leaves nothing unmet, then all can be met. -/
theorem Meetable.of_meetAll (h : meetAll kinds unmet = []) : Meetable unmet kinds := by
  induction kinds generalizing unmet with
  | nil =>
    obtain rfl : unmet = [] := h
    exact .nil_left []
  | cons kind rest ih => exact .of_meet (ih h)

/-- If all can be met and no kind stands before one that extends it, then one pass leaves
nothing unmet. -/
theorem Meetable.meetAll_eq_nil (hnodup : unmet.Nodup) (hfirst : SpecificFirst unmet)
    (h : Meetable unmet kinds) : meetAll kinds unmet = [] := by
  induction kinds generalizing unmet with
  | nil => exact h.eq_nil
  | cons kind rest ih =>
    have hsub := Constraints.meet_sublist kind unmet
    exact ih (hnodup.sublist hsub) (hfirst.sublist hsub) (h.meet_of hnodup hfirst)

/-! ## When one pass is enough -/

/-- The heights of some kinds together. -/
def totalHeight (kinds : List K) : Nat := (kinds.map height).sum

theorem totalHeight_erase {a : K} (h : a ∈ unmet) :
    totalHeight unmet = height a + totalHeight (unmet.erase a) := by
  have hperm := (List.perm_cons_erase h).map height
  rw [totalHeight, hperm.sum_nat, List.map_cons, List.sum_cons]
  rfl

/-- If one pass leaves nothing unmet, the descendants are together as high as the kinds
that they meet. -/
theorem totalHeight_le (h : meetAll kinds unmet = []) : totalHeight unmet ≤ totalHeight kinds := by
  induction kinds generalizing unmet with
  | nil =>
    obtain rfl : unmet = [] := h
    exact Nat.le_refl 0
  | cons kind rest ih =>
    have hrest : totalHeight (meet kind unmet) ≤ totalHeight rest := ih h
    have hcons : totalHeight (kind :: rest) = height kind + totalHeight rest := rfl
    rcases meet_cases kind unmet with ⟨before, a, after, hunmet, ha, -, hmeet⟩ | ⟨-, hmeet⟩
    · have hmem : a ∈ unmet := by
        rw [hunmet]
        exact List.mem_append_right before List.mem_cons_self
      have hheight : height a ≤ height kind := by
        by_cases hne : a = kind
        · rw [hne]
        · exact (Taxonomy.height_lt_of_isA ha hne).le
      rw [hmeet] at hrest
      have herase := totalHeight_erase hmem
      omega
    · rw [hmeet] at hrest
      omega

/-- Kinds in any order can be met by descendants of just these kinds. -/
theorem Meetable.of_perm (hperm : unmet.Perm kinds) : Meetable unmet kinds := by
  refine ⟨kinds.idxOf, ?_, ?_⟩
  · intro a ha b hb hab
    have ha' : kinds[kinds.idxOf a]? = some a := List.getElem?_idxOf (hperm.subset ha)
    have hb' : kinds[kinds.idxOf b]? = some b := List.getElem?_idxOf (hperm.subset hb)
    dsimp only at hab
    rw [hab, hb'] at ha'
    exact (Option.some.inj ha').symm
  · intro a ha
    exact ⟨a, List.getElem?_idxOf (hperm.subset ha), isA_refl a⟩

/-- If each kind stands behind none that it extends, the specific kinds come first. -/
theorem SpecificFirst.of_split
    (h : ∀ before b after, unmet = before ++ b :: after → ∀ a ∈ before, isA b a = false) :
    SpecificFirst unmet := by
  induction unmet with
  | nil => exact .nil
  | cons c rest ih =>
    refine List.pairwise_cons.2 ⟨?_, ih ?_⟩
    · intro b hb
      obtain ⟨before, after, hrest⟩ := List.append_of_mem hb
      exact h (c :: before) b after (by rw [hrest]; rfl) c List.mem_cons_self
    · intro before b after hrest a ha
      exact h (c :: before) b after (by rw [hrest]; rfl) a (List.mem_cons_of_mem c ha)

/-- **One pass meets whatever can be met exactly if no kind stands before one that extends
it.** Otherwise descendants of just the kinds to be met are refused if one that extends
an earlier kind comes first: it meets a lower kind, and the others are not high enough
for the rest. -/
theorem specificFirst_iff (hnodup : unmet.Nodup) :
    SpecificFirst unmet ↔ ∀ kinds, Meetable unmet kinds → meetAll kinds unmet = [] := by
  refine ⟨fun hfirst kinds h => h.meetAll_eq_nil hnodup hfirst, fun h => .of_split ?_⟩
  intro before b after hunmet a ha
  have hb : b ∈ unmet := by
    rw [hunmet]
    exact List.mem_append_right before List.mem_cons_self
  have hpass : meetAll (unmet.erase b) (meet b unmet) = [] :=
    h (b :: unmet.erase b) (.of_perm (List.perm_cons_erase hb))
  have hlow := totalHeight_le hpass
  rcases meet_cases b unmet with ⟨before', x, after', hunmet', hx, hbefore', hmeet⟩ | ⟨hnone, -⟩
  · have hxmem : x ∈ unmet := by
      rw [hunmet']
      exact List.mem_append_right before' List.mem_cons_self
    -- what the first descendant meets is as high as itself, so it is its own kind
    obtain rfl : x = b := by
      by_contra hne
      have hlt := Taxonomy.height_lt_of_isA hx hne
      rw [hmeet] at hlow
      have hex := totalHeight_erase hxmem
      have heb := totalHeight_erase hb
      omega
    have hsplit := hunmet ▸ hnodup
    have hnot := (List.nodup_middle.1 hsplit).notMem
    have hsame := (List.append_cons_inj_of_notMem (fun hmem => hnot (List.mem_append_left _ hmem))
      (fun hmem => hnot (List.mem_append_right _ hmem))).1 (hunmet.symm.trans hunmet')
    exact hbefore' a (hsame.1 ▸ ha)
  · refine hnone a ?_
    rw [hunmet]
    exact List.mem_append_left _ ha

theorem Constraints.nodup_mandatoryKinds (c : Constraints K) : c.mandatoryKinds.Nodup :=
  Taxonomy.ascending_nodup.filter _

/-- **A check that passes has an assignment** of descendants to mandatory kinds, if every
descendant is allowed. A check that has an assignment passes if no mandatory kind stands
before one that extends it, in ascending order. -/
theorem check_meets (c : Constraints K) (n : Node K)
    (hallowed : ∀ m ∈ n.below, c.allows m.kind = true) :
    ((c.check n).value = .ok () → Meetable c.mandatoryKinds (n.below.map Node.kind)) ∧
      (SpecificFirst c.mandatoryKinds → Meetable c.mandatoryKinds (n.below.map Node.kind) →
        (c.check n).value = .ok ()) := by
  rw [Constraints.check_eq hallowed]
  refine ⟨fun h => ?_, fun hfirst h => ?_⟩
  · cases hall : meetAll (n.below.map Node.kind) c.mandatoryKinds with
    | nil => exact .of_meetAll hall
    | cons a rest => rw [hall] at h; cases h
  · rw [h.meetAll_eq_nil c.nodup_mandatoryKinds hfirst]
    rfl

namespace Template

/-- A template with a filter and then an optional section. -/
def blocks : Text := ['\x7b', '#', 'a', '#', '\x7d', '\x7b', '?', 'b', '?', '\x7d']

theorem exists_blocks : ∃ t : NodeTree Kind, t.tokens.source = blocks ∧ t.Parsed ∧
    t.root.below.map Node.kind = [.filter, .optional] := by
  obtain ⟨t, ht, hkinds⟩ : ∃ t, TokenTree.scan rules .default blocks = .ok t ∧
      ((NodeTree.ofTokens constraints t).root.below.map Node.kind == [.filter, .optional]) = true :=
    TokenTree.exists_ok_of_any (by cbv)
  exact ⟨.ofTokens constraints t, (TokenTree.scan_drawn ht).1, .scan constraints ht,
    beq_iff_eq.1 hkinds⟩

/-- Where the base kind is allowed, every kind is. -/
theorem allows_of_node {c : Constraints Kind} (h : c.allowed .node = true) (k : Kind) :
    c.allows k = true := by
  refine List.any_eq_true.2 ⟨.node, List.mem_filter.2 ⟨Taxonomy.mem_ascending _, h⟩, ?_⟩
  cases k <;> decide

/-- Filters and optional sections are mandatory. -/
theorem check_meets_blocks : ∃ (t : NodeTree Kind) (c : Constraints Kind),
    t.tokens.source = blocks ∧ t.Parsed ∧ (∀ m ∈ t.root.below, c.allows m.kind = true) ∧
      c.mandatoryKinds = [.filter, .optional] ∧ SpecificFirst c.mandatoryKinds ∧
      Meetable c.mandatoryKinds (t.root.below.map Node.kind) ∧ (c.check t.root).value = .ok () := by
  obtain ⟨t, hsource, hparsed, hkinds⟩ := exists_blocks
  obtain ⟨c, hc⟩ : ∃ c : Constraints Kind, c = (Constraints.fresh.require .filter).require .optional :=
    ⟨_, rfl⟩
  have hmandatory : c.mandatoryKinds = [.filter, .optional] := by
    rw [hc]
    decide
  have hfirst : SpecificFirst c.mandatoryKinds := by
    rw [hmandatory]
    simp only [SpecificFirst]
    decide
  have hallowed : ∀ m ∈ t.root.below, c.allows m.kind = true :=
    fun m _ => allows_of_node (by rw [hc]; decide) m.kind
  have hmeetable : Meetable c.mandatoryKinds (t.root.below.map Node.kind) := by
    rw [hkinds, hmandatory]
    exact ⟨fun k => if k = .filter then 0 else 1, by decide, by decide⟩
  exact ⟨t, c, hsource, hparsed, hallowed, hmandatory, hfirst, hmeetable,
    (check_meets c _ hallowed).2 hfirst hmeetable⟩

/-- A check may refuse what can be met: the filter meets the mandatory block, which is the
lesser kind, and then the optional section cannot meet the mandatory filter. -/
theorem check_refuses_meetable : ∃ (t : NodeTree Kind) (c : Constraints Kind),
    t.tokens.source = blocks ∧ t.Parsed ∧ (∀ m ∈ t.root.below, c.allows m.kind = true) ∧
      c.mandatoryKinds = [.block, .filter] ∧
      Meetable c.mandatoryKinds (t.root.below.map Node.kind) ∧
      (c.check t.root).value = .error (.missing t.root.info ["Filter"]) := by
  obtain ⟨t, hsource, hparsed, hkinds⟩ := exists_blocks
  obtain ⟨c, hc⟩ : ∃ c : Constraints Kind, c = (Constraints.fresh.require .block).require .filter :=
    ⟨_, rfl⟩
  have hmandatory : c.mandatoryKinds = [.block, .filter] := by
    rw [hc]
    decide
  have hallowed : ∀ m ∈ t.root.below, c.allows m.kind = true :=
    fun m _ => allows_of_node (by rw [hc]; decide) m.kind
  refine ⟨t, c, hsource, hparsed, hallowed, hmandatory, ?_, ?_⟩
  · rw [hkinds, hmandatory]
    -- the section is a block, so the filter is free for the mandatory filter
    exact ⟨fun k => if k = .block then 1 else 0, by decide, by decide⟩
  · rw [Constraints.check_eq hallowed, hkinds, hmandatory]
    rfl

end Template

end Bracketry
