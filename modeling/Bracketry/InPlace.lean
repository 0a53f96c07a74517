import Bracketry.Error

/-!
# Calls made in place

A caller changes a record by calls. A call is a program that reads and writes the fields of the
record one after the other, so a call that fails halfway would leave behind what it had written so
far. What a call makes of the record as a whole is said apart from the program. Both agree: a call
fails before it writes.

* `Calls`: the calls of a record, with the proof that they do what is said of them.
* `Calls.after_of_ok`, `Calls.after_of_error`: the record after a call.
* `Calls.accepted_iff`: which calls succeed.
* `Calls.replay_append`: calls in a row.
-/

namespace Bracketry

/-- A program over a record. Where it fails, what it wrote stays written. -/
abbrev InPlace (σ α : Type) : Type := EStateM Error σ α

/-- What a program comes to that fails before it writes, by what it makes of the record. -/
def InPlace.outcome {σ : Type} (s : σ) : Except Error σ → EStateM.Result Error σ Unit
  | .ok s' => .ok () s'
  | .error e => .error e s

/-- Calls of type `γ` on records of type `σ`. -/
class Calls (γ σ : Type) where
  /-- The program of a call. -/
  write : γ → InPlace σ Unit
  /-- What a call makes of a record. -/
  made : γ → σ → Except Error σ
  /-- **A call made in place does what is said of it,** and one that fails leaves every field as
  it was. -/
  write_eq : ∀ c s, write c s = InPlace.outcome s (made c s)

namespace Calls

variable {γ σ : Type} [Calls γ σ]

/-- The record after a call, whether the call failed or not. -/
def after (c : γ) (s : σ) : σ :=
  match write c s with
  | .ok _ s' => s'
  | .error _ s' => s'

/-- Whether a call succeeds. -/
def accepted (c : γ) (s : σ) : Bool :=
  match write c s with
  | .ok _ _ => true
  | .error _ _ => false

/-- The record after some calls in a row, of which some may have failed. -/
def replay (s : σ) (calls : List γ) : σ := calls.foldl (fun s c => after c s) s

variable {c : γ} {s s' : σ} {e : Error}

theorem after_of_ok (h : made c s = .ok s') : after c s = s' := by
  unfold after
  rw [write_eq, h]
  rfl

/-- A call that fails leaves the record as it was. -/
theorem after_of_error (h : made c s = .error e) : after c s = s := by
  unfold after
  rw [write_eq, h]
  rfl

theorem accepted_iff : accepted c s = true ↔ ∃ s', made c s = .ok s' := by
  unfold accepted
  rw [write_eq]
  cases made c s <;> simp [InPlace.outcome]

theorem after_of_not_accepted (h : accepted c s = false) : after c s = s := by
  cases hm : made c s with
  | error e => exact after_of_error hm
  | ok s' =>
    rw [accepted_iff.2 ⟨s', hm⟩] at h
    cases h

theorem replay_append (s : σ) (calls later : List γ) :
    replay s (calls ++ later) = replay (replay s calls) later :=
  List.foldl_append

theorem replay_concat (s : σ) (calls : List γ) (c : γ) :
    replay s (calls ++ [c]) = after c (replay s calls) :=
  replay_append s calls [c]

end Calls

end Bracketry
