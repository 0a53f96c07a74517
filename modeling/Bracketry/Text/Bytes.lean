/-!
# Text measured in bytes

A text is a list of characters, but positions in it count UTF-8 bytes. A cut
always falls between two characters: a character is kept by `take` as soon as
one of its bytes is asked for, and a cut beyond the end is a cut at the end.

* `take_append_drop`: a cut loses nothing.
* `length_drop_lt`: a positive cut of a non-empty text drops something.
* `bytes_append`: lengths add up.
-/

namespace Bracketry

/-- A run of source characters. -/
abbrev Text := List Char

namespace Text

/-- The number of UTF-8 bytes of a text. -/
def bytes : Text → Nat
  | [] => 0
  | c :: r => c.utf8Size + bytes r

/-- The characters that begin within the first `n` bytes. -/
def take : Nat → Text → Text
  | _, [] => []
  | 0, _ :: _ => []
  | n + 1, c :: r => c :: take (n + 1 - c.utf8Size) r

/-- The characters that begin at byte `n` or later. -/
def drop : Nat → Text → Text
  | _, [] => []
  | 0, c :: r => c :: r
  | n + 1, c :: r => drop (n + 1 - c.utf8Size) r

/-- What follows `p` in a text that begins with it. -/
def after? : Text → Text → Option Text
  | [], s => some s
  | _ :: _, [] => none
  | p :: ps, c :: cs => if p = c then after? ps cs else none

/-- Whether a text begins with `p`. -/
def startsWith (p s : Text) : Bool := (after? p s).isSome

@[simp] theorem bytes_nil : bytes [] = 0 := rfl

@[simp] theorem bytes_cons (c : Char) (r : Text) : bytes (c :: r) = c.utf8Size + bytes r := rfl

@[simp] theorem bytes_append (s t : Text) : bytes (s ++ t) = bytes s + bytes t := by
  induction s with
  | nil => simp
  | cons c r ih => simp [ih, Nat.add_assoc]

@[simp] theorem take_nil (n : Nat) : take n [] = [] := by cases n <;> rfl

@[simp] theorem drop_nil (n : Nat) : drop n [] = [] := by cases n <;> rfl

@[simp] theorem take_zero (s : Text) : take 0 s = [] := by cases s <;> rfl

@[simp] theorem drop_zero (s : Text) : drop 0 s = s := by cases s <;> rfl

theorem take_append_drop (n : Nat) (s : Text) : take n s ++ drop n s = s := by
  induction s generalizing n with
  | nil => simp
  | cons c r ih =>
    cases n with
    | zero => simp
    | succ n => simp [take, drop, ih]

theorem length_drop_le (n : Nat) (s : Text) : (drop n s).length ≤ s.length := by
  have := congrArg List.length (take_append_drop n s)
  rw [List.length_append] at this
  omega

theorem length_drop_lt {n : Nat} (hn : 0 < n) {s : Text} (hs : s ≠ []) :
    (drop n s).length < s.length := by
  obtain ⟨n, rfl⟩ := Nat.exists_eq_succ_of_ne_zero (Nat.pos_iff_ne_zero.1 hn)
  cases s with
  | nil => exact absurd rfl hs
  | cons c r =>
    have := length_drop_le (n + 1 - c.utf8Size) r
    simp only [drop, List.length_cons]
    omega

end Text

end Bracketry
