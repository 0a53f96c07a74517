import Mathlib.Combinatorics.Pigeonhole
import Mathlib.Dynamics.PeriodicPts.Defs
import Mathlib.Logic.Relation
import Bracketry.Declaration

/-!
# Ways up

A list of parents gives each position at most one position to go up to. The check of a
declaration goes up from every position, as many steps as there are positions, and looks
for the position where it started.

* `comesTo_iff`: what one walk of the check finds.
* `exists_return`: a way that is still going after as many steps as there are positions
  has come to a position that it returns to.
* `checkParents_eq_ok_iff`: **the check passes if no way up ever returns to a position,**
  be it the one where the way starts or not.
-/

namespace Bracketry

namespace Declaration

/-- One step up, from a position or from past the top. -/
def rise (parents : List (Option Nat)) (place : Option Nat) : Option Nat :=
  place.bind fun i => parents[i]?.join

/-- Position `j` is right above position `i`. -/
def Above (parents : List (Option Nat)) (i j : Nat) : Prop := parents[i]?.join = some j

/-- What is above a position is a position. -/
def InRange (parents : List (Option Nat)) : Prop := ∀ i p, Above parents i p → p < parents.length

variable {parents : List (Option Nat)}

theorem iterate_rise_none (k : Nat) : (rise parents)^[k] none = none := by
  induction k with
  | zero => rfl
  | succ k ih => rw [Function.iterate_succ_apply]; exact ih

/-- A way that has ended does not go on. -/
theorem iterate_rise_eq_none {place : Option Nat} {m k : Nat} (hmk : m ≤ k)
    (h : (rise parents)^[m] place = none) : (rise parents)^[k] place = none := by
  obtain ⟨more, rfl⟩ := Nat.exists_eq_add_of_le hmk
  rw [Nat.add_comm, Function.iterate_add_apply, h, iterate_rise_none]

/-- A walk comes to a position if it stands there after fewer steps than it takes. -/
theorem comesTo_iff {start n : Nat} {place : Option Nat} :
    comesTo parents start n place = true ↔ ∃ k < n, (rise parents)^[k] place = some start := by
  induction n generalizing place with
  | zero => simp [comesTo]
  | succ n ih =>
    cases place with
    | none => simp [comesTo, iterate_rise_none]
    | some i =>
      simp only [comesTo, Bool.or_eq_true, beq_iff_eq]
      rw [ih]
      constructor
      · rintro (rfl | ⟨k, hk, hstart⟩)
        · exact ⟨0, Nat.succ_pos n, rfl⟩
        · exact ⟨k + 1, Nat.succ_lt_succ hk, hstart⟩
      · rintro ⟨k, hk, hstart⟩
        cases k with
        | zero => exact .inl (Option.some.inj hstart)
        | succ k => exact .inr ⟨k, Nat.lt_of_succ_lt_succ hk, hstart⟩

/-- One position is above another if some steps up lead from the other to it. -/
theorem transGen_above_iff {i j : Nat} :
    Relation.TransGen (Above parents) i j ↔ ∃ k, (rise parents)^[k + 1] (some i) = some j := by
  constructor
  · intro h
    induction h with
    | single hij => exact ⟨0, hij⟩
    | tail _ hij ih =>
      obtain ⟨k, hk⟩ := ih
      refine ⟨k + 1, ?_⟩
      rw [Function.iterate_succ_apply', hk]
      exact hij
  · rintro ⟨k, hk⟩
    induction k generalizing j with
    | zero => exact .single hk
    | succ k ih =>
      rw [Function.iterate_succ_apply'] at hk
      obtain ⟨m, hm, hmj⟩ := Option.bind_eq_some_iff.1 hk
      exact (ih hm).tail hmj

/-! ## Ways that end and ways that return -/

/-- **A way that is still going after as many steps as there are positions has come to a
position that it returns to,** within as many steps. -/
theorem exists_return (hrange : InRange parents) {i : Nat} (hi : i < parents.length)
    (h : (rise parents)^[parents.length] (some i) ≠ none) :
    ∃ j k, j < parents.length ∧ k < parents.length ∧
      (rise parents)^[k + 1] (some j) = some j := by
  have hgoing : ∀ k ≤ parents.length, ∃ j < parents.length, (rise parents)^[k] (some i) = some j := by
    intro k hk
    have hne : (rise parents)^[k] (some i) ≠ none := fun hnone => h (iterate_rise_eq_none hk hnone)
    obtain ⟨j, hj⟩ := Option.ne_none_iff_exists'.1 hne
    refine ⟨j, ?_, hj⟩
    cases k with
    | zero => cases hj; exact hi
    | succ k =>
      rw [Function.iterate_succ_apply'] at hj
      obtain ⟨m, -, hmj⟩ := Option.bind_eq_some_iff.1 hj
      exact hrange m j hmj
  -- there is one more place on the way than there are positions, so two of them agree
  have hcard : ((Finset.range parents.length).image some).card <
      (Finset.range (parents.length + 1)).card := by
    have hle := Finset.card_image_le (s := Finset.range parents.length) (f := some)
    rw [Finset.card_range] at hle ⊢
    omega
  have hmaps : ∀ k ∈ Finset.range (parents.length + 1),
      (rise parents)^[k] (some i) ∈ (Finset.range parents.length).image some := by
    intro k hk
    obtain ⟨j, hj, hplace⟩ := hgoing k (Nat.le_of_lt_succ (Finset.mem_range.1 hk))
    rw [hplace]
    exact Finset.mem_image_of_mem some (Finset.mem_range.2 hj)
  obtain ⟨a, ha, b, hb, hne, hab⟩ := Finset.exists_ne_map_eq_of_card_lt_of_maps_to hcard hmaps
  wlog hlt : a < b generalizing a b
  · exact this b hb a ha hne.symm hab.symm (by omega)
  obtain ⟨j, hj, hplace⟩ := hgoing a (Nat.le_of_lt_succ (Finset.mem_range.1 ha))
  have hb := Finset.mem_range.1 hb
  refine ⟨j, b - a - 1, hj, by omega, ?_⟩
  rw [← hplace, ← Function.iterate_add_apply, show b - a - 1 + 1 + a = b by omega, ← hab, hplace]

/-- A way that ends returns to none of its positions. -/
theorem ne_of_ends {i m : Nat} (h : (rise parents)^[m] (some i) = none) (k : Nat) :
    (rise parents)^[k + 1] (some i) ≠ some i := by
  intro hreturn
  -- going round once is going round as often as it takes to outrun the end
  have hround : (rise parents)^[(k + 1) * m] (some i) = some i :=
    Function.IsPeriodicPt.mul_const (m := k + 1) hreturn m
  rw [iterate_rise_eq_none (Nat.le_mul_of_pos_left m (Nat.succ_pos k)) h] at hround
  cases hround

/-- A walk from right above a position finds that position if the position is above itself. -/
theorem comesTo_above_iff {i n : Nat} :
    comesTo parents i n (parents[i]?.join) = true ↔
      ∃ k < n, (rise parents)^[k + 1] (some i) = some i := by
  rw [comesTo_iff]
  simp only [Function.iterate_succ_apply]
  rfl

/-- If no walk comes back to where it started, then every way up ends. -/
theorem ends_of_comesTo (hrange : InRange parents)
    (h : ∀ i < parents.length, comesTo parents i parents.length (parents[i]?.join) = false)
    {i : Nat} (hi : i < parents.length) : (rise parents)^[parents.length] (some i) = none := by
  by_contra hgoing
  obtain ⟨j, k, hj, hk, hreturn⟩ := exists_return hrange hi hgoing
  have hfound := comesTo_above_iff.2 ⟨k, hk, hreturn⟩
  rw [h j hj] at hfound
  cases hfound

/-- No walk comes back to where it started exactly if no position is above itself. -/
theorem comesTo_eq_false_iff (hrange : InRange parents) :
    (∀ i < parents.length, comesTo parents i parents.length (parents[i]?.join) = false) ↔
      ∀ i, ¬Relation.TransGen (Above parents) i i := by
  constructor
  · intro h i habove
    have hi : i < parents.length := by
      obtain ⟨j, -, hji⟩ := Relation.TransGen.tail'_iff.1 habove
      exact hrange j i hji
    obtain ⟨k, hreturn⟩ := transGen_above_iff.1 habove
    exact ne_of_ends (ends_of_comesTo hrange h hi) k hreturn
  · intro h i _
    rw [← Bool.not_eq_true, comesTo_above_iff]
    rintro ⟨k, -, hreturn⟩
    exact h i (transGen_above_iff.2 ⟨k, hreturn⟩)

theorem checkParents_eq_ok {cases : List KindCase} {i : Nat} :
    checkParents parents i cases = .ok () ↔ ∀ j < cases.length,
      comesTo parents (i + j) parents.length (parents[i + j]?.join) = false := by
  induction cases generalizing i with
  | nil => simp [checkParents]
  | cons c rest ih =>
    rw [checkParents]
    cases hfirst : comesTo parents i parents.length (parents[i]?.join) with
    | true =>
      refine iff_of_false (by simp) fun h => ?_
      have hzero := h 0 (Nat.succ_pos _)
      rw [Nat.add_zero, hfirst] at hzero
      cases hzero
    | false =>
      rw [if_neg Bool.false_ne_true, ih]
      constructor
      · intro h j hj
        cases j with
        | zero => exact hfirst
        | succ j =>
          rw [show i + (j + 1) = i + 1 + j by omega]
          exact h j (Nat.lt_of_succ_lt_succ hj)
      · intro h j hj
        rw [show i + 1 + j = i + (j + 1) by omega]
        exact h (j + 1) (Nat.succ_lt_succ hj)

/-- **The check passes exactly if no case extends itself through its parents.** -/
theorem checkParents_eq_ok_iff {cases : List KindCase} (hlength : cases.length = parents.length)
    (hrange : InRange parents) :
    checkParents parents 0 cases = .ok () ↔ ∀ i, ¬Relation.TransGen (Above parents) i i := by
  rw [checkParents_eq_ok, hlength, ← comesTo_eq_false_iff hrange]
  simp only [Nat.zero_add]

end Declaration

end Bracketry
