/-!
# Runs that may fail

What a run in `Except` made, read off its result, step by step.

* `bind_eq_ok_iff`: two steps in a row.
* `exists_of_map_eq_ok`: a step and what is made of its result.
* `mapM_eq_ok_iff`: a run over a list, if it is known what each step accepts and makes.
* `forM_eq_ok_iff`: a run over a list for its errors only.
-/

namespace Bracketry

variable {ε α β : Type}

/-- Two steps in a row succeed exactly if each of them does. -/
theorem bind_eq_ok_iff {x : Except ε α} {f : α → Except ε β} {b : β} :
    x >>= f = .ok b ↔ ∃ a, x = .ok a ∧ f a = .ok b := by
  constructor
  · intro h
    cases x with
    | error e => cases h
    | ok a => exact ⟨a, rfl, h⟩
  · rintro ⟨a, rfl, h⟩
    exact h

/-- A mapped run succeeds where the run does. -/
theorem exists_of_map_eq_ok {run : Except ε α} {f : α → β} {b : β} (h : run.map f = .ok b) :
    ∃ a, run = .ok a ∧ f a = b := by
  cases run with
  | error e => cases h
  | ok a =>
    cases h
    exact ⟨a, rfl, rfl⟩

/-- A run over a list succeeds exactly if each step does. -/
theorem mapM_eq_ok_iff {f : α → Except ε β} {good : α → Prop} {g : α → β}
    (hf : ∀ a b, f a = .ok b ↔ good a ∧ b = g a) {l : List α} {bs : List β} :
    l.mapM f = .ok bs ↔ (∀ a ∈ l, good a) ∧ bs = l.map g := by
  induction l generalizing bs with
  | nil => simp [pure, Except.pure, eq_comm]
  | cons a rest ih =>
    simp only [List.mapM_cons, bind_eq_ok_iff, List.forall_mem_cons, List.map_cons, pure,
      Except.pure, Except.ok.injEq]
    constructor
    · rintro ⟨b, hb, cs, hcs, rfl⟩
      obtain ⟨ha, rfl⟩ := (hf a b).1 hb
      obtain ⟨hrest, rfl⟩ := ih.1 hcs
      exact ⟨⟨ha, hrest⟩, rfl⟩
    · rintro ⟨⟨ha, hrest⟩, rfl⟩
      exact ⟨g a, (hf a _).2 ⟨ha, rfl⟩, rest.map g, ih.2 ⟨hrest, rfl⟩, rfl⟩

/-- A run over a list for its errors only succeeds if each step does. -/
theorem forM_eq_ok_iff {f : α → Except ε Unit} {l : List α} :
    forM l f = .ok () ↔ ∀ a ∈ l, f a = .ok () := by
  induction l with
  | nil => simp [pure, Except.pure]
  | cons a rest ih =>
    rw [List.forM_cons, List.forall_mem_cons, ← ih, bind_eq_ok_iff]
    constructor
    · rintro ⟨_, ha, hrest⟩
      exact ⟨ha, hrest⟩
    · rintro ⟨ha, hrest⟩
      exact ⟨(), ha, hrest⟩

end Bracketry
