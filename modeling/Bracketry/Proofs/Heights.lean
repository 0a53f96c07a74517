import Mathlib.Data.List.Perm.Basic
import Mathlib.Logic.Function.Iterate
import Bracketry.Proofs.Traversal

/-!
# How deep an assembly goes

A walk is asked for its items one by one. In between it keeps what is left of each open
sequence on a stack, and it takes a sequence off only when it meets it with nothing left.
That is why the height of the stack is the depth of an item. The depth of an assembly is
found by a search of its own, over sequences that are looked into in no given order.

* `totalWeight_turn`: **each turn of a walk leaves one thing less to meet,** so a walk ends.
* `answer_eq`: the calls for the next item are answered by the items of the walk, in order.
* `Sounding.eq_reach`: **a search for the depth has one result, in whatever order it goes.**
* `le_height_iff`, `mem_walk_iff`: what lies at a depth, and what is met there.
* `walk_yields`: **a walk yields the items in document order, and no item lies deeper than
  the depth of the assembly.**
-/

namespace Bracketry.Assembly

variable {α : Type}

/-! ## A walk call by call -/

/-- One turn of a walk, from what is left of the open sequences, innermost first: the item
that the turn meets, if it meets one, and what is left then. -/
def turn : List (Assembly α) → Option (Nat × α) × List (Assembly α)
  | [] => (none, [])
  | [] :: outer => (none, outer)
  | (.item item :: rest) :: outer => (some (outer.length, item), rest :: outer)
  | (.nested entries :: rest) :: outer => (none, entries :: rest :: outer)

theorem totalWeight_cons_pos (a : Assembly α) (outer : List (Assembly α)) :
    0 < totalWeight (a :: outer) :=
  Nat.add_pos_left (Nat.zero_lt_of_lt (totalWeight_nested_lt a)) _

/-- **Each turn leaves one entry or one end of a sequence less to meet.** -/
theorem totalWeight_turn (left : List (Assembly α)) :
    totalWeight (turn left).2 = totalWeight left - 1 := by
  fun_cases turn left with
  | case1 => rfl
  | case2 outer =>
    show totalWeight outer = 1 + totalWeight outer - 1
    omega
  | case3 item rest outer =>
    show weight rest + totalWeight outer = 1 + weight rest + totalWeight outer - 1
    omega
  | case4 entries rest outer =>
    show weight entries + (weight rest + totalWeight outer) =
      1 + weight entries + weight rest + totalWeight outer - 1
    omega

/-- A call for the next item: turns until one of them meets an item, or nothing is left. -/
def next : List (Assembly α) → Option (Nat × α) × List (Assembly α)
  | [] => (none, [])
  | a :: outer =>
    match (turn (a :: outer)).1 with
    | some met => (some met, (turn (a :: outer)).2)
    | none => next (turn (a :: outer)).2
termination_by left => totalWeight left
decreasing_by
  have hpos := totalWeight_cons_pos a outer
  rw [totalWeight_turn]
  omega

/-- The answer to a call for the next item, after `k` calls before it. -/
def answer (left : List (Assembly α)) : Nat → Option (Nat × α)
  | 0 => (next left).1
  | k + 1 => answer (next left).2 k

theorem totalWeight_eq_zero_iff {left : List (Assembly α)} : totalWeight left = 0 ↔ left = [] := by
  cases left with
  | nil => exact iff_of_true rfl rfl
  | cons a outer =>
    have hpos := totalWeight_cons_pos a outer
    exact iff_of_false (by omega) (List.cons_ne_nil a outer)

theorem totalWeight_iterate_turn (left : List (Assembly α)) (n : Nat) :
    totalWeight ((fun left => (turn left).2)^[n] left) = totalWeight left - n := by
  induction n generalizing left with
  | zero => rfl
  | succ n ih =>
    rw [Function.iterate_succ_apply, ih, totalWeight_turn]
    omega

/-- **A walk has ended after as many turns as the assembly has entries and sequences,** and
not before. -/
theorem iterate_turn_eq_nil_iff (a : Assembly α) (n : Nat) :
    (fun left => (turn left).2)^[n] [a] = [] ↔ weight a ≤ n := by
  rw [← totalWeight_eq_zero_iff, totalWeight_iterate_turn]
  show weight a + 0 - n = 0 ↔ _
  omega

/-- What a turn meets comes first in the walk, and the walk goes on with what is left. -/
theorem walkFrom_turn (left : List (Assembly α)) :
    walkFrom left = (turn left).1.toList ++ walkFrom (turn left).2 := by
  fun_cases turn left <;> simp [walkFrom]

/-- A call is answered by the first item of the walk, and it leaves the others. -/
theorem next_eq (left : List (Assembly α)) :
    (next left).1 = (walkFrom left).head? ∧ walkFrom (next left).2 = (walkFrom left).tail := by
  fun_induction next left with
  | case1 => simp [walkFrom]
  | case2 a outer met hmet =>
    have hwalk := walkFrom_turn (a :: outer)
    rw [hmet] at hwalk
    simp [hwalk]
  | case3 a outer hmet ih =>
    -- a turn that meets no item leaves the same walk
    have hwalk := walkFrom_turn (a :: outer)
    rw [hmet, Option.toList_none, List.nil_append] at hwalk
    rw [hwalk]
    exact ih

/-- **The calls are answered by the items of the walk, one after the other,** and by none
after the last. -/
theorem answer_eq (left : List (Assembly α)) (k : Nat) : answer left k = (walkFrom left)[k]? := by
  induction k generalizing left with
  | zero =>
    rw [answer, (next_eq left).1, List.head?_eq_getElem?]
  | succ k ih =>
    rw [answer, ih, (next_eq left).2, List.getElem?_tail]

/-! ## The depth, looked for in any order -/

/-- The greatest number of sequences nested one in another, the outermost not counted. -/
def height : Assembly α → Nat
  | [] => 0
  | .item _ :: rest => height rest
  | .nested entries :: rest => max (height entries + 1) (height rest)

/-- A search for the greatest depth, from the greatest so far and the sequences still pending
to its result. The sequence to look into next may be any of them. -/
inductive Sounding : Nat → List (Assembly α × Nat) → Nat → Prop
  | done (deepest : Nat) : Sounding deepest [] deepest
  | look {deepest depth result : Nat} {a : Assembly α} {pending rest : List (Assembly α × Nat)} :
      pending.Perm ((a, depth) :: rest) →
      Sounding (max deepest depth) (a.nested.map (fun child => (child, depth + 1)) ++ rest) result →
      Sounding deepest pending result

/-- The greatest depth of what is pending and all that is nested in it, but at least
`deepest`. -/
def reach (deepest : Nat) (pending : List (Assembly α × Nat)) : Nat :=
  pending.foldr (fun p greatest => max (p.2 + p.1.height) greatest) deepest

theorem reach_perm {pending pending' : List (Assembly α × Nat)} (h : pending.Perm pending')
    (deepest : Nat) : reach deepest pending = reach deepest pending' := by
  have hcomm : LeftCommutative fun (p : Assembly α × Nat) greatest =>
      max (p.2 + p.1.height) greatest :=
    ⟨fun _ _ _ => Nat.max_left_comm _ _ _⟩
  exact h.foldr_eq deepest

theorem reach_append (deepest : Nat) (pending more : List (Assembly α × Nat)) :
    reach deepest (pending ++ more) = reach (reach deepest more) pending :=
  List.foldr_append

theorem reach_max (deepest depth : Nat) (pending : List (Assembly α × Nat)) :
    reach (max deepest depth) pending = max depth (reach deepest pending) := by
  induction pending with
  | nil => exact Nat.max_comm _ _
  | cons p rest ih =>
    show max _ (reach (max deepest depth) rest) = max depth (max _ (reach deepest rest))
    rw [ih, Nat.max_left_comm]

/-- A sequence reaches as deep as it lies itself and as the sequences nested in it do. -/
theorem reach_nested (deepest depth : Nat) (a : Assembly α) :
    max depth (reach deepest (a.nested.map fun child => (child, depth + 1))) =
      max (depth + a.height) deepest := by
  induction a with
  | nil =>
    rw [height]
    rfl
  | cons e rest ih =>
    cases e with
    | item item =>
      rw [height]
      exact ih
    | nested entries =>
      have hrow : reach deepest ((nested (.nested entries :: rest)).map (·, depth + 1)) =
          max (depth + 1 + height entries) (reach deepest ((nested rest).map (·, depth + 1))) := rfl
      rw [hrow, Nat.max_left_comm, ih, height]
      omega

/-- **A search has one result, in whatever order it goes.** -/
theorem Sounding.eq_reach {deepest result : Nat} {pending : List (Assembly α × Nat)}
    (h : Sounding deepest pending result) : result = reach deepest pending := by
  induction h with
  | done deepest => rfl
  | @look deepest depth result a pending rest hperm _ ih =>
    calc result
        = reach (max deepest depth) (a.nested.map (fun child => (child, depth + 1)) ++ rest) := ih
      _ = reach (max (reach deepest rest) depth) (a.nested.map fun child => (child, depth + 1)) := by
          rw [reach_append, reach_max, Nat.max_comm]
      _ = max (depth + a.height) (reach deepest rest) := by rw [reach_max, reach_nested]
      _ = reach deepest pending := (reach_perm hperm deepest).symm

/-- The search from the first to the last is one of them. -/
theorem sounding_depthFrom (deepest : Nat) (pending : List (Assembly α × Nat)) :
    Sounding deepest pending (depthFrom deepest pending) := by
  fun_induction depthFrom deepest pending with
  | case1 deepest => exact .done deepest
  | case2 deepest a depth rest ih => exact .look (List.Perm.refl _) ih

theorem reach_start (a : Assembly α) : reach 0 [(a, 0)] = a.height := by
  show max (0 + a.height) 0 = a.height
  omega

/-- **The depth of an assembly is its height.** -/
theorem depth_eq_height (a : Assembly α) : a.depth = a.height :=
  (sounding_depthFrom 0 [(a, 0)]).eq_reach.trans (reach_start a)

/-! ## What lies at a depth -/

/-- The sequence `b` lies `n` levels below `a`: the entries of `b` have `n` sequences around
them, `a` not counted. -/
inductive Encloses : Assembly α → Nat → Assembly α → Prop
  | here (a : Assembly α) : Encloses a 0 a
  | inside {a entries b : Assembly α} {n : Nat} :
      .nested entries ∈ a → Encloses entries n b → Encloses a (n + 1) b

/-- Below a sequence lies what lies in the sequences nested in it, one level deeper. -/
theorem lt_height_iff {a : Assembly α} {n : Nat} :
    n < a.height ↔ ∃ entries, .nested entries ∈ a ∧ n ≤ height entries := by
  induction a with
  | nil => simp [height]
  | cons e rest ih =>
    cases e with
    | item item => simp [height, ih]
    | nested entries =>
      simp only [height, List.mem_cons, Entry.nested.injEq, or_and_right, exists_or,
        exists_eq_left, ← ih]
      omega

/-- **An assembly is as high as sequences lie in it, empty ones too.** -/
theorem le_height_iff {a : Assembly α} {n : Nat} : n ≤ a.height ↔ ∃ b, Encloses a n b := by
  induction n generalizing a with
  | zero => exact iff_of_true (Nat.zero_le _) ⟨a, .here a⟩
  | succ n ih =>
    rw [Nat.succ_le_iff, lt_height_iff]
    constructor
    · rintro ⟨entries, hmem, hle⟩
      obtain ⟨b, hb⟩ := ih.1 hle
      exact ⟨b, .inside hmem hb⟩
    · rintro ⟨b, hb⟩
      cases hb with
      | inside hmem hb => exact ⟨_, hmem, ih.2 ⟨b, hb⟩⟩

/-- What is met in an assembly is an item of its own or is met in a sequence nested in it. -/
theorem mem_inOrder_iff {depth n : Nat} {item : α} {a : Assembly α} :
    (n, item) ∈ inOrder depth a ↔
      (n = depth ∧ .item item ∈ a) ∨
        ∃ entries, .nested entries ∈ a ∧ (n, item) ∈ inOrder (depth + 1) entries := by
  induction a with
  | nil => simp [inOrder]
  | cons e rest ih =>
    cases e with
    | item own =>
      simp only [inOrder, List.mem_cons, Prod.mk.injEq, ih, Entry.item.injEq, reduceCtorEq,
        false_or, and_or_left, or_assoc]
    | nested entries =>
      simp only [inOrder, List.mem_append, List.mem_cons, ih, Entry.nested.injEq, reduceCtorEq,
        false_or, or_and_right, exists_or, exists_eq_left]
      exact or_left_comm

theorem le_of_mem_inOrder {depth n : Nat} {item : α} {a : Assembly α}
    (h : (n, item) ∈ inOrder depth a) : depth ≤ n := by
  induction depth, a using inOrder.induct with
  | case1 depth => simp [inOrder] at h
  | case2 depth own rest ih =>
    simp only [inOrder, List.mem_cons, Prod.mk.injEq] at h
    rcases h with ⟨rfl, -⟩ | h
    · exact Nat.le_refl _
    · exact ih h
  | case3 depth entries rest ihEntries ihRest =>
    simp only [inOrder, List.mem_append] at h
    rcases h with h | h
    · have hle := ihEntries h
      omega
    · exact ihRest h

/-- An item is met at the depth of the sequence that it is an entry of. -/
theorem mem_inOrder_add_iff {depth k : Nat} {item : α} {a : Assembly α} :
    (depth + k, item) ∈ inOrder depth a ↔ ∃ b, Encloses a k b ∧ .item item ∈ b := by
  induction k generalizing depth a with
  | zero =>
    rw [mem_inOrder_iff]
    constructor
    · rintro (⟨-, hmem⟩ | ⟨entries, -, h⟩)
      · exact ⟨a, .here a, hmem⟩
      · -- deeper items are met at greater depths
        have hle := le_of_mem_inOrder h
        omega
    · rintro ⟨b, hb, hmem⟩
      cases hb
      exact .inl ⟨rfl, hmem⟩
  | succ k ih =>
    have hdepth : depth + (k + 1) = depth + 1 + k := by omega
    rw [mem_inOrder_iff, hdepth]
    constructor
    · rintro (⟨heq, -⟩ | ⟨entries, hnested, h⟩)
      · omega
      · obtain ⟨b, hb, hmem⟩ := ih.1 h
        exact ⟨b, .inside hnested hb, hmem⟩
    · rintro ⟨b, hb, hmem⟩
      cases hb with
      | inside hnested hb => exact .inr ⟨_, hnested, ih.2 ⟨b, hb, hmem⟩⟩

/-- **A walk meets an item at a depth if it is an entry of a sequence that lies there.** -/
theorem mem_walk_iff {n : Nat} {item : α} {a : Assembly α} :
    (n, item) ∈ a.walk ↔ ∃ b, Encloses a n b ∧ .item item ∈ b := by
  have h : (0 + n, item) ∈ inOrder 0 a ↔ ∃ b, Encloses a n b ∧ .item item ∈ b :=
    mem_inOrder_add_iff
  rwa [Nat.zero_add, ← walk_eq_inOrder] at h

/-! ## The walk and the depth -/

/-- **A walk yields the items in document order, none deeper than the depth.** It ends after
as many turns as there are entries and sequences, and its calls are answered by the items of a
recursion, each with the number of nested sequences around it; without these numbers they are
the flattened assembly. The depth is the height, in whatever order it is looked for, and so
the greatest number of levels that a sequence lies below the outermost one, empty or not. -/
theorem walk_yields (a : Assembly α) :
    (∀ n, (fun left => (turn left).2)^[n] [a] = [] ↔ weight a ≤ n) ∧
      (∀ k, answer [a] k = (inOrder 0 a)[k]?) ∧
      a.walk = inOrder 0 a ∧
      a.flatten = (inOrder 0 a).map Prod.snd ∧
      (∀ n item, (n, item) ∈ a.walk ↔ ∃ b, Encloses a n b ∧ .item item ∈ b) ∧
      a.depth = a.height ∧
      (∀ d, Sounding 0 [(a, 0)] d ↔ d = a.height) ∧
      (∀ n, n ≤ a.depth ↔ ∃ b, Encloses a n b) ∧
      ∀ n item, (n, item) ∈ a.walk → n ≤ a.depth := by
  have hdepth := depth_eq_height a
  have hlies : ∀ n, n ≤ a.depth ↔ ∃ b, Encloses a n b := by
    intro n
    rw [hdepth, le_height_iff]
  refine ⟨iterate_turn_eq_nil_iff a, ?_, walk_eq_inOrder a, (map_snd_inOrder 0 a).symm,
    fun n item => mem_walk_iff, hdepth, ?_, hlies, ?_⟩
  · intro k
    rw [answer_eq, ← walk_eq_inOrder]
    rfl
  · intro d
    constructor
    · intro h
      rw [h.eq_reach, reach_start]
    · rintro rfl
      rw [← hdepth]
      exact sounding_depthFrom 0 [(a, 0)]
  · intro n item h
    obtain ⟨b, hb, -⟩ := mem_walk_iff.1 h
    exact (hlies n).2 ⟨b, hb⟩

/-- Sequences without an item, one after another and at the end. -/
theorem walk_yields_empty :
    let a : Assembly Nat :=
      [.nested [.nested [.nested []]], .item 0, .nested [.nested [.item 1], .nested []], .nested []]
    (2, 1) ∈ a.walk ∧ 2 ≤ a.depth ∧ a.depth = 3 := by
  intro a
  have hmem : (2, 1) ∈ a.walk := by
    simp [a, walk, walkFrom]
  obtain ⟨-, -, -, -, -, hdepth, -, -, hle⟩ := walk_yields a
  refine ⟨hmem, hle 2 1 hmem, ?_⟩
  rw [hdepth]
  simp [a, height]

end Bracketry.Assembly
