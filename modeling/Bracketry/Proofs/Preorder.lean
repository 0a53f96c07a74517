import Bracketry.Proofs.Ancestry
import Bracketry.Proofs.Emission

/-!
# What is below a node

The nodes below a node are found by a stack of siblings still to visit. In a parsed tree
the branches of a node say what there is to find.

* `Branch.Grows.forall_preorder`: what passes from a node to its children holds
  throughout a branch.
* `NodeTree.Parsed.visits`: the stack visits a branch in pre-order, whatever is left to
  visit around it.
* `NodeTree.Parsed.below_eq_preorder`: **what is below a node is its branch in
  pre-order,** without the node.
* `NodeTree.Parsed.emitted_eq_preorder`: the nodes that a compilation emits are those of
  the branches that it visits.
-/

namespace Bracketry

variable {K : Type}

namespace Branch

theorem mem_preorders {n : Node K} {branches : List (Branch K)} :
    n ∈ preorder.preorders branches ↔ ∃ b ∈ branches, n ∈ b.preorder := by
  induction branches with
  | nil => simp [preorder.preorders]
  | cons b rest ih => simp [preorder.preorders, ih]

theorem preorder_eq (b : Branch K) : b.preorder = b.head :: preorder.preorders b.branches := by
  cases b
  rfl

/-- **What passes from a node to its children holds throughout a branch.** -/
theorem Grows.forall_preorder {P : Node K → Prop} {b : Branch K} (hb : b.Grows)
    (hstep : ∀ n m, P n → m ∈ n.children.value → P m) (hhead : P b.head) :
    ∀ n ∈ b.preorder, P n := by
  induction hb with
  | @node head branches hheads _ ih =>
    intro n hn
    rcases List.mem_cons.1 hn with rfl | hn
    · exact hhead
    · obtain ⟨b, hb, hn⟩ := mem_preorders.1 hn
      have hchild : b.head ∈ head.children.value := hheads ▸ List.mem_map_of_mem hb
      exact ih b hb (hstep head b.head hhead hchild) n hn

end Branch

namespace NodeTree

/-- The nodes that a compilation emits, in pre-order: all nodes, but a group at the root
is none of them. -/
def emitted (t : NodeTree K) : List (Node K) :=
  if t.root.isGroup then t.root.below else t.root :: t.root.below

/-- The stack visits a branch in pre-order, whatever is left to visit beside and around
it. -/
def Visits (children : Nat → List Nat) (b : Branch K) : Prop :=
  ∀ (m : Nat) (siblings : List Nat) (outer : List (List Nat)),
    visit children (b.size + m) ((b.head.id :: siblings) :: outer) =
      b.preorder.map Node.id ++ visit children m (siblings :: outer)

theorem visit_nil (children : Nat → List Nat) (n : Nat) : visit children n [] = [] := by
  cases n <;> rfl

theorem visit_nil_cons (children : Nat → List Nat) (n : Nat) (outer : List (List Nat)) :
    visit children n ([] :: outer) = visit children n outer := by
  cases n <;> rfl

/-- Branches in a row are visited one after the other. -/
theorem visit_row {children : Nat → List Nat} {branches : List (Branch K)}
    (h : ∀ b ∈ branches, Visits children b) (m : Nat) (outer : List (List Nat)) :
    visit children (Branch.size.sizes branches + m) (branches.map (fun b => b.head.id) :: outer) =
      (Branch.preorder.preorders branches).map Node.id ++ visit children m outer := by
  induction branches with
  | nil =>
    simp only [Branch.size.sizes, Nat.zero_add, List.map_nil, visit_nil_cons,
      Branch.preorder.preorders, List.nil_append]
  | cons b rest ih =>
    obtain ⟨hb, hrest⟩ := List.forall_mem_cons.1 h
    rw [Branch.size.sizes, Nat.add_assoc, List.map_cons, hb, ih hrest, Branch.preorder.preorders,
      List.map_append, List.append_assoc]

theorem filterMap_node? {t : NodeTree K} {nodes : List (Node K)}
    (h : ∀ n ∈ nodes, n.tree = t ∧ n.Genuine) : (nodes.map Node.id).filterMap t.node? = nodes := by
  induction nodes with
  | nil => rfl
  | cons n rest ih =>
    obtain ⟨⟨rfl, hn⟩, hrest⟩ := List.forall_mem_cons.1 h
    rw [List.map_cons, List.filterMap_cons_some hn, ih hrest]

namespace Parsed

variable [DecidableEq K] [Taxonomy K] {t : NodeTree K} {b : Branch K}

/-- The branches of a node have the nodes of its children at their heads. -/
theorem genuine_heads (h : t.Parsed) {head : Node K} {branches : List (Branch K)}
    (hheads : branches.map Branch.head = head.children.value) (htree : head.tree = t)
    (hn : head.Genuine) : ∀ b ∈ branches, b.head.tree = t ∧ b.head.Genuine := by
  subst htree
  intro b hb
  have hchild : b.head ∈ head.children.value := hheads ▸ List.mem_map_of_mem hb
  obtain ⟨htree, hgenuine, -, -⟩ := h.child hn hchild
  exact ⟨htree, hgenuine⟩

theorem childIds_eq_heads (h : t.Parsed) {head : Node K} {branches : List (Branch K)}
    (hheads : branches.map Branch.head = head.children.value) (htree : head.tree = t)
    (hn : head.Genuine) : t.childIds head.id = branches.map fun b => b.head.id := by
  subst htree
  rw [h.childIds_eq_map hn, ← hheads, List.map_map]
  rfl

/-- **The stack visits a branch in pre-order.** -/
theorem visits (h : t.Parsed) (hb : b.Grows) (htree : b.head.tree = t) (hn : b.head.Genuine) :
    Visits t.childIds b := by
  induction hb with
  | @node head branches hheads _ ih =>
    intro m siblings outer
    have hgenuine := h.genuine_heads hheads htree hn
    have hrow := visit_row (fun b hb => ih b hb (hgenuine b hb).1 (hgenuine b hb).2)
      m (siblings :: outer)
    have hids := h.childIds_eq_heads hheads htree hn
    have hsize : (Branch.node head branches).size + m = Branch.size.sizes branches + m + 1 := by
      simp only [Branch.size]
      omega
    rw [hsize, Branch.head, visit, next?]
    simp only [hids, Branch.preorder, List.map_cons, List.cons_append]
    cases branches with
    | nil => simp [Branch.size.sizes, Branch.preorder.preorders]
    | cons b rest =>
      simp only [List.map_cons, List.isEmpty_cons, Bool.false_eq_true, if_false] at hrow ⊢
      rw [hrow]

/-- The nodes of a branch are nodes of the tree. -/
theorem genuine_branch (h : t.Parsed) (hb : b.Grows) (htree : b.head.tree = t)
    (hn : b.head.Genuine) : ∀ n ∈ b.preorder, n.tree = t ∧ n.Genuine := by
  refine hb.forall_preorder (P := fun n => n.tree = t ∧ n.Genuine) ?_ ⟨htree, hn⟩
  rintro n m ⟨rfl, hn⟩ hm
  obtain ⟨hmtree, hm, -, -⟩ := h.child hn hm
  exact ⟨hmtree, hm⟩

/-- **What is below a node is its branch in pre-order,** without the node. -/
theorem below_eq_preorder (h : t.Parsed) (hb : b.Grows) (htree : b.head.tree = t)
    (hn : b.head.Genuine) (hsize : b.size ≤ t.tokens.size) :
    b.head.below = Branch.preorder.preorders b.branches := by
  cases hb with
  | @node head branches hheads hgrow =>
    have hgenuine := h.genuine_heads hheads htree hn
    have hvisits : ∀ b ∈ branches, Visits t.childIds b := fun b hb =>
      h.visits (hgrow b hb) (hgenuine b hb).1 (hgenuine b hb).2
    have hids := h.childIds_eq_heads hheads htree hn
    -- the node itself is not visited, so the bound leaves room
    have hroom : Branch.size.sizes branches ≤ t.tokens.size := by
      simp only [Branch.size] at hsize
      omega
    have hrow := visit_row hvisits (t.tokens.size - Branch.size.sizes branches) []
    rw [Nat.add_sub_of_le hroom, ← hids, visit_nil, List.append_nil] at hrow
    have hall : ∀ n ∈ Branch.preorder.preorders branches, n.tree = t ∧ n.Genuine := by
      intro n hmem
      obtain ⟨b, hb, hmem⟩ := Branch.mem_preorders.1 hmem
      exact h.genuine_branch (hgrow b hb) (hgenuine b hb).1 (hgenuine b hb).2 n hmem
    obtain rfl : head.tree = t := htree
    rw [Branch.head, Branch.branches, Node.below, NodeTree.below, hrow]
    exact filterMap_node? hall

/-- **A compilation emits the nodes of the branches that it visits,** in pre-order. -/
theorem emitted_eq_preorder (h : t.Parsed) (hb : b.Grows) (hroot : b.head = t.root)
    (hsize : b.size ≤ t.tokens.size) : t.emitted = Branch.preorder.preorders b.tops := by
  have hbelow := h.below_eq_preorder hb (hroot ▸ rfl) (hroot ▸ t.genuine_root) hsize
  rw [emitted, Branch.tops, ← hroot, hbelow]
  cases b.head.isGroup with
  | true => rfl
  | false =>
    simp only [Bool.false_eq_true, if_false, Branch.preorder.preorders, Branch.preorder_eq b,
      List.append_nil]

/-- What a compilation visits on the outermost level is no group, and nothing encloses
it. -/
theorem of_mem_tops (h : t.Parsed) (hb : b.Grows) (hroot : b.head = t.root) :
    ∀ top ∈ b.tops, top.Grows ∧ top.head.tree = t ∧ top.head.Genuine ∧
      top.head.isGroup = false ∧ top.head.ancestors = [] := by
  have hn : t.root.Genuine := t.genuine_root
  intro top htop
  cases hg : b.head.isGroup with
  | true =>
    rw [Branch.tops, hg, if_pos rfl] at htop
    cases hb with
    | @node head branches hheads hgrow =>
      obtain rfl : head = t.root := hroot
      have hchild : top.head ∈ t.root.children.value := hheads ▸ List.mem_map_of_mem htop
      obtain ⟨htree, htopn, hgroup, -⟩ := h.child hn hchild
      have hancestors := NodeTree.Parsed.ancestors_child h hn hchild
      have hg : t.root.isGroup = true := hg
      rw [if_pos hg, h.ancestors_root] at hancestors
      exact ⟨hgrow top htop, htree, htopn, hgroup, hancestors⟩
  | false =>
    rw [Branch.tops, hg, if_neg (by simp)] at htop
    obtain rfl := List.mem_singleton.1 htop
    exact ⟨hb, hroot ▸ rfl, hroot ▸ hn, hg, hroot ▸ h.ancestors_root⟩

/-- What a compilation emits are nodes of the tree and no groups. -/
theorem of_mem_preorders (h : t.Parsed) (hb : b.Grows) (hroot : b.head = t.root) :
    ∀ n ∈ Branch.preorder.preorders b.tops, n.tree = t ∧ n.Genuine ∧ n.isGroup = false := by
  intro n hmem
  obtain ⟨top, htop, hmem⟩ := Branch.mem_preorders.1 hmem
  obtain ⟨hgrow, htree, hn, hgroup, -⟩ := h.of_mem_tops hb hroot top htop
  refine hgrow.forall_preorder (P := fun n => n.tree = t ∧ n.Genuine ∧ n.isGroup = false) ?_
    ⟨htree, hn, hgroup⟩ n hmem
  rintro n m ⟨rfl, hn, -⟩ hm
  obtain ⟨htree, hm, hgroup, -⟩ := h.child hn hm
  exact ⟨htree, hm, hgroup⟩

/-- A node without children has nothing below it. -/
theorem below_eq_nil {n : Node K} (h : n.tree.Parsed) (hn : n.Genuine)
    (hnil : n.children.value = []) : n.below = [] := by
  have hids := childIds_eq_map h hn
  rw [hnil, List.map_nil] at hids
  rw [Node.below, NodeTree.below, hids, visit_nil_cons, visit_nil, List.filterMap_nil]

end Parsed

end NodeTree

end Bracketry
