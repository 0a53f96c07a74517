/-!
# Assemblies

Compiled output is a sequence of entries, each an item or a nested sequence. It
grows at its end, and the nesting mirrors that of the nodes that emitted it.

* `walk`: the items in document order, each with its nesting depth, by an
  explicit stack of what is left of each open sequence.
* `depth`: the deepest nesting, by a stack of sequences still to look into.
* `totalWeight_nested_lt`: the sequences nested in a sequence weigh less together.
-/

namespace Bracketry

/-- One position of an assembly. -/
inductive Assembly.Entry (α : Type)
  | item (item : α)
  | nested (entries : List (Assembly.Entry α))

/-- A sequence of items and nested sequences. -/
abbrev Assembly (α : Type) := List (Assembly.Entry α)

namespace Assembly

variable {α : Type}

/-- Adds an item at the end. -/
def push (a : Assembly α) (item : α) : Assembly α := a ++ [.item item]

/-- Adds a nested sequence at the end. -/
def pushNested (a child : Assembly α) : Assembly α := a ++ [.nested child]

/-- Puts an item in the place of the last entry; an empty assembly gets it as
its first. -/
def setLast : Assembly α → α → Assembly α
  | [], item => [.item item]
  | [_], item => [.item item]
  | e :: f :: rest, item => e :: setLast (f :: rest) item

/-- The items that are entries themselves. -/
def items (a : Assembly α) : List α :=
  a.filterMap fun
    | .item item => some item
    | .nested _ => none

/-- The nested sequences that are entries themselves. -/
def nested (a : Assembly α) : List (Assembly α) :=
  a.filterMap fun
    | .item _ => none
    | .nested entries => some entries

/-- The items of some sequences, each nested in the one after it, from the first
on. -/
def walkFrom : List (Assembly α) → List (Nat × α)
  | [] => []
  | [] :: outer => walkFrom outer
  | (.item item :: rest) :: outer => (outer.length, item) :: walkFrom (rest :: outer)
  | (.nested entries :: rest) :: outer => walkFrom (entries :: rest :: outer)

/-- Every item in document order, with the number of sequences around it. -/
def walk (a : Assembly α) : List (Nat × α) := walkFrom [a]

/-- Every item in document order. -/
def flatten (a : Assembly α) : List α := a.walk.map Prod.snd

/-- The number of entries that an entry holds at any depth, itself included, and
one more for every sequence. -/
def Entry.weight : Entry α → Nat
  | .item _ => 1
  | .nested entries => 1 + weights entries
where
  weights : List (Entry α) → Nat
    | [] => 1
    | e :: rest => e.weight + weights rest

/-- The number of entries and sequences of an assembly. -/
def weight (a : Assembly α) : Nat := Entry.weight.weights a

/-- The number of entries and sequences of several assemblies together. -/
def totalWeight : List (Assembly α) → Nat
  | [] => 0
  | a :: rest => weight a + totalWeight rest

theorem totalWeight_append (l m : List (Assembly α)) :
    totalWeight (l ++ m) = totalWeight l + totalWeight m := by
  induction l with
  | nil => exact (Nat.zero_add _).symm
  | cons a l ih =>
    show weight a + totalWeight (l ++ m) = weight a + totalWeight l + totalWeight m
    rw [ih, Nat.add_assoc]

theorem totalWeight_nested_lt (a : Assembly α) : totalWeight a.nested < weight a := by
  induction a with
  | nil => exact Nat.zero_lt_one
  | cons e rest ih =>
    cases e with
    | item item =>
      show totalWeight (nested rest) < 1 + weight rest
      exact Nat.lt_of_lt_of_le ih (Nat.le_add_left _ _)
    | nested entries =>
      show weight entries + totalWeight (nested rest) < 1 + weight entries + weight rest
      rw [Nat.add_comm 1, Nat.add_assoc]
      exact Nat.add_lt_add_left (Nat.lt_of_lt_of_le ih (Nat.le_add_left _ _)) _

/-- The greatest depth among sequences of known depth and all that is nested in
them, but at least `deepest`. -/
def depthFrom (deepest : Nat) : List (Assembly α × Nat) → Nat
  | [] => deepest
  | (a, depth) :: rest =>
    depthFrom (max deepest depth) (a.nested.map (fun child => (child, depth + 1)) ++ rest)
termination_by sequences => totalWeight (sequences.map Prod.fst)
decreasing_by
  rw [List.map_append, List.map_map, totalWeight_append]
  refine Nat.add_lt_add_right ?_ _
  show totalWeight (a.nested.map id) < weight a
  rw [List.map_id]
  exact totalWeight_nested_lt a

/-- How many levels of sequences lie below the outermost one. -/
def depth (a : Assembly α) : Nat := depthFrom 0 [(a, 0)]

end Assembly

end Bracketry
