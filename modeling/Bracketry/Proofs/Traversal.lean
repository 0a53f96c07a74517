import Bracketry.Assembly.Basic

/-!
# Assemblies in document order

A walk keeps a stack of what is left of each open sequence and reads the depth of an
item off the height of the stack. What it yields is a recursion: an item stands where
it is met, and the items of a nested sequence stand one level deeper.

* `walkFrom_cons`: the walk goes through a sequence before it goes on around it.
* `walk_eq_inOrder`: **a walk yields the items in document order,** each with the number
  of sequences around it.
* `flatten_append`, `flatten_nested_cons`: without the depths, a nested sequence is as good
  as its entries.
-/

namespace Bracketry.Assembly

variable {α : Type}

/-- Every item in document order, with the number of sequences around it; `depth` is
that of the outermost items. -/
def inOrder (depth : Nat) : Assembly α → List (Nat × α)
  | [] => []
  | .item item :: rest => (depth, item) :: inOrder depth rest
  | .nested entries :: rest => inOrder (depth + 1) entries ++ inOrder depth rest

/-- A walk goes through a sequence, one level deeper than the one around it, and then
through what is left around it. -/
theorem walkFrom_cons (a : Assembly α) (outer : List (Assembly α)) :
    walkFrom (a :: outer) = inOrder outer.length a ++ walkFrom outer := by
  -- the walk itself recurses on the whole stack, so the induction is on its first sequence
  generalize hd : outer.length = depth
  induction depth, a using inOrder.induct generalizing outer with
  | case1 depth => simp [walkFrom, inOrder]
  | case2 depth item rest ih => simp [walkFrom, inOrder, ih outer hd, hd]
  | case3 depth entries rest ihEntries ihRest =>
    rw [walkFrom, ihEntries (rest :: outer) (by simp [hd]), ihRest outer hd, inOrder,
      List.append_assoc]

/-- **A walk yields the items in document order.** -/
theorem walk_eq_inOrder (a : Assembly α) : a.walk = inOrder 0 a := by
  rw [walk, walkFrom_cons, walkFrom, List.append_nil]
  rfl

theorem inOrder_append (depth : Nat) (a b : Assembly α) :
    inOrder depth (a ++ b) = inOrder depth a ++ inOrder depth b := by
  induction a with
  | nil => simp only [List.nil_append, inOrder]
  | cons e rest ih =>
    cases e with
    | item item => simp only [List.cons_append, inOrder, ih]
    | nested entries => simp only [List.cons_append, inOrder, ih, List.append_assoc]

/-- The items do not depend on the depth that is counted from. -/
theorem map_snd_inOrder (depth : Nat) (a : Assembly α) :
    (inOrder depth a).map Prod.snd = a.flatten := by
  have hshift : ∀ depth', (inOrder depth a).map Prod.snd = (inOrder depth' a).map Prod.snd := by
    induction depth, a using inOrder.induct with
    | case1 depth =>
      intro depth'
      simp only [inOrder, List.map_nil]
    | case2 depth item rest ih =>
      intro depth'
      simp only [inOrder, List.map_cons]
      rw [ih depth']
    | case3 depth entries rest ihEntries ihRest =>
      intro depth'
      simp only [inOrder, List.map_append]
      rw [ihEntries (depth' + 1), ihRest depth']
  unfold flatten
  rw [walk_eq_inOrder]
  exact hshift 0

theorem flatten_nil : flatten ([] : Assembly α) = [] := by
  unfold flatten
  simp only [walk_eq_inOrder, inOrder, List.map_nil]

theorem flatten_append (a b : Assembly α) : flatten (a ++ b) = a.flatten ++ b.flatten := by
  unfold flatten
  simp only [walk_eq_inOrder, inOrder_append, List.map_append]

theorem flatten_item_cons (item : α) (a : Assembly α) :
    flatten (.item item :: a) = item :: a.flatten := by
  unfold flatten
  simp only [walk_eq_inOrder, inOrder, List.map_cons]

theorem flatten_nested_cons (entries a : Assembly α) :
    flatten (.nested entries :: a) = entries.flatten ++ a.flatten := by
  have hnested := map_snd_inOrder 1 entries
  rw [← map_snd_inOrder 0]
  simp only [inOrder, List.map_append]
  rw [hnested, map_snd_inOrder]

end Bracketry.Assembly
