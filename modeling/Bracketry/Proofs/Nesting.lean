import Bracketry.Proofs.Preorder
import Bracketry.Proofs.Traversal

/-!
# Scopes are nested like nodes

A compilation goes down by children and opens a scope at each step. How deep a node is
goes up by parents. If each node adds one item, the two depths are the same: an item
stands as deep in the output as its node in the tree. A group opens no scope and
encloses nothing.

* `Branch.Grows.inOrder_visit`: a visit adds an item for each node that it makes, at the
  depth of the node.
* `compilation_nests`: **the output of a compilation is what was there before, and then
  one item for each node in pre-order, at the depth of the node.**
-/

namespace Bracketry

variable {K I : Type}

namespace Branch

open Assembly (inOrder)

/-- A node that is made into a scope, as its depth and the item that it adds. -/
def labelled (item : Node K → Assembly I → I) (call : Node K × Assembly I) : Nat × I :=
  (call.1.depth, item call.1 call.2)

/-- A visit adds an item for each node that it makes, where the outermost items of the
scope are at a given depth. -/
def Lists (make : Node K → Assembly I → Except Error (Assembly I))
    (item : Node K → Assembly I → I) (depth : Nat) (b : Branch K) : Prop :=
  ∀ scope : Assembly I, ∃ out, b.visit make scope = .ok out ∧
    inOrder depth out = inOrder depth scope ++ (b.calls make scope).map (labelled item)

variable {make : Node K → Assembly I → Except Error (Assembly I)} {item : Node K → Assembly I → I}

/-- Visits in a row add their items one after the other. -/
theorem Lists.all {depth : Nat} {branches : List (Branch K)}
    (h : ∀ b ∈ branches, b.Lists make item depth) (scope : Assembly I) :
    ∃ out, visit.all make branches scope = .ok out ∧
      inOrder depth out =
        inOrder depth scope ++ (calls.all make branches scope).map (labelled item) := by
  induction branches generalizing scope with
  | nil => exact ⟨scope, rfl, by rw [calls.all, List.map_nil, List.append_nil]⟩
  | cons b rest ih =>
    obtain ⟨hb, hrest⟩ := List.forall_mem_cons.1 h
    obtain ⟨mid, hvisit, hmid⟩ := hb scope
    obtain ⟨out, hall, hout⟩ := ih hrest mid
    refine ⟨out, ?_, ?_⟩
    · rw [visit.all, hvisit]
      exact hall
    · rw [hout, hmid, calls.all, hvisit, List.map_append, List.append_assoc]

variable [DecidableEq K] [Taxonomy K] {t : NodeTree K} {b : Branch K}

/-- **A visit adds an item for each node that it makes, at the depth of the node,** if
it begins at the depth of its head. -/
theorem Grows.inOrder_visit (hb : b.Grows) (h : t.Parsed) (htree : b.head.tree = t)
    (hn : b.head.Genuine) (hgroup : b.head.isGroup = false)
    (hmake : ∀ n ∈ b.preorder, ∀ scope, make n scope = .ok (scope.push (item n scope))) :
    b.Lists make item b.head.depth := by
  induction hb with
  | @node head branches hheads _ ih =>
    obtain rfl : head.tree = t := htree
    -- the children are one level deeper, because the head is no group
    have hbelow : ∀ b ∈ branches, b.Lists make item (head.depth + 1) := by
      intro b hb
      have hchild : b.head ∈ head.children.value := hheads ▸ List.mem_map_of_mem hb
      obtain ⟨hbtree, hbn, hbgroup, -⟩ := h.child hn hchild
      have hancestors := h.ancestors_child hn hchild
      have hdepth : b.head.depth = head.depth + 1 := by
        have hg : head.isGroup = false := hgroup
        rw [Node.depth, hancestors, if_neg (by simp [hg]), List.length_cons]
        rfl
      rw [← hdepth]
      refine ih b hb hbtree hbn hbgroup fun n hmem => hmake n ?_
      exact List.mem_cons_of_mem head (mem_preorders.2 ⟨b, hb, hmem⟩)
    intro scope
    have hhead : make head scope = .ok (scope.push (item head scope)) :=
      hmake head List.mem_cons_self scope
    obtain ⟨inner, hall, hinner⟩ := Lists.all hbelow []
    have hcalls : (Branch.node head branches).calls make scope =
        (head, scope) :: calls.all make branches [] := by rw [calls, hhead]
    rw [hcalls, List.map_cons, visit, hhead]
    simp only [inOrder, List.nil_append] at hinner
    cases branches with
    | nil =>
      refine ⟨_, rfl, ?_⟩
      simp only [Assembly.push, Assembly.inOrder_append, inOrder, calls.all, List.map_nil]
      rfl
    | cons b rest =>
      refine ⟨(scope.push (item head scope)).pushNested inner, ?_, ?_⟩
      · simp only [bind, Except.bind, hall, List.isEmpty_cons, Bool.false_eq_true, if_false]
      · simp only [Assembly.push, Assembly.pushNested, Assembly.inOrder_append, inOrder, hinner,
          Branch.head, List.append_nil, List.append_assoc]
        rfl

end Branch

namespace Compilation

variable [DecidableEq K] [Taxonomy K] {c : Compilation K I} {item : Node K → Assembly I → I}

/-- A node that is allowed adds the item of its grammar. -/
theorem make_eq_push {n : Node K} {scope : Assembly I}
    (hallowed : (c.grammar.isAllowed n).value = .ok true)
    (hemit : (c.grammar.emit n c.arguments scope).value = .ok (scope.push (item n scope))) :
    c.make n scope = .ok (scope.push (item n scope)) := by
  simp only [make, Grammar.make, Look.value_bind, hallowed, hemit]

/-- What a compilation visits on the outermost level is at depth zero. -/
theorem lists_tops {b : Branch K} (h : c.tree.Parsed) (hb : b.Grows) (hroot : b.head = c.tree.root)
    (hmake : ∀ n ∈ Branch.preorder.preorders b.tops, ∀ scope,
      c.make n scope = .ok (scope.push (item n scope))) :
    ∀ top ∈ b.tops, top.Lists c.make item 0 := by
  intro top htop
  obtain ⟨hgrow, htree, hn, hgroup, hancestors⟩ := h.of_mem_tops hb hroot top htop
  have hdepth : top.head.depth = 0 := by rw [Node.depth, hancestors, List.length_nil]
  have hmaketop : ∀ n ∈ top.preorder, ∀ scope, c.make n scope = .ok (scope.push (item n scope)) :=
    fun n hmem => hmake n (Branch.mem_preorders.2 ⟨top, htop, hmem⟩)
  rw [← hdepth]
  exact hgrow.inOrder_visit h htree hn hgroup hmaketop

end Compilation

/-- **Scopes are nested like nodes.** If the nodes that a compilation emits are all
allowed and add one item each, the compilation succeeds. The walk over its output yields
what was there before, and then the items of the nodes in pre-order, each with the
number of tags that enclose its node. A group at the root adds nothing. -/
theorem compilation_nests [DecidableEq K] [Taxonomy K] (c : Compilation K I)
    (h : c.tree.Parsed) (item : Node K → Assembly I → I)
    (hallowed : ∀ n ∈ c.tree.emitted, (c.grammar.isAllowed n).value = .ok true)
    (hemit : ∀ n ∈ c.tree.emitted, ∀ scope,
      (c.grammar.emit n c.arguments scope).value = .ok (scope.push (item n scope))) :
    ∃ b : Branch K, b.Grows ∧ b.head = c.tree.root ∧
      (Branch.calls.all c.make b.tops c.output).map Prod.fst = c.tree.emitted ∧
      ∃ out, c.run = .ok out ∧
        out.walk = c.output.walk ++ (Branch.calls.all c.make b.tops c.output).map
          fun call => (call.1.depth, item call.1 call.2) := by
  obtain ⟨b, hb, hroot, hsize⟩ := h.exists_branch
  have hemitted := h.emitted_eq_preorder hb hroot hsize
  have hmake : ∀ n ∈ Branch.preorder.preorders b.tops, ∀ scope,
      c.make n scope = .ok (scope.push (item n scope)) := by
    intro n hmem scope
    rw [← hemitted] at hmem
    exact Compilation.make_eq_push (hallowed n hmem) (hemit n hmem scope)
  obtain ⟨out, hall, hout⟩ := Branch.Lists.all (Compilation.lists_tops h hb hroot hmake) c.output
  have hrun : c.run = .ok out := by rw [Compilation.run_eq_tops hb hroot hsize, hall]
  have hattempted : Branch.Attempted c.make (Branch.calls.all c.make b.tops c.output)
      (Branch.preorder.preorders b.tops) (.ok out) := hall ▸ Branch.visit.attempted_all b.tops c.output
  refine ⟨b, hb, hroot, ?_, out, hrun, ?_⟩
  · rw [hemitted]
    exact hattempted.of_ok.1.symm
  · rw [Assembly.walk_eq_inOrder, Assembly.walk_eq_inOrder, hout]
    rfl

/-- A grammar in which each node adds its kind and the number of entries before it. -/
def Template.numbering : Grammar Template.Kind (Template.Kind × Nat) where
  rules := Template.rules
  constraints := fun _ => none
  isAllowed := fun _ => pure (.ok true)
  emit := fun n _ out => pure (.ok (out.push (n.kind, out.length)))

theorem compilation_nests_sample : ∃ c : Compilation Template.Kind (Template.Kind × Nat),
    c.tree.tokens.source = Template.sample ∧ c.output = [.item (.document, 0)] ∧
    c.tree.Parsed ∧
    (∀ n ∈ c.tree.emitted, (c.grammar.isAllowed n).value = .ok true) ∧
    (∀ n ∈ c.tree.emitted, ∀ scope, (c.grammar.emit n c.arguments scope).value =
      .ok (scope.push (n.kind, scope.length))) ∧
    ∃ b : Branch Template.Kind, b.Grows ∧ b.head = c.tree.root ∧
      (Branch.calls.all c.make b.tops c.output).map Prod.fst = c.tree.emitted ∧
      ∃ out, c.run = .ok out ∧
        out.walk = c.output.walk ++ (Branch.calls.all c.make b.tops c.output).map
          fun call => (call.1.depth, (call.1.kind, call.2.length)) := by
  obtain ⟨t, ht, -⟩ := Template.scan_sample
  have hparsed : (NodeTree.ofTokens (fun _ => none) t).Parsed := .scan (fun _ => none) ht
  have hsource : t.source = Template.sample := (TokenTree.scan_drawn ht).1
  refine ⟨.start Template.numbering (.ofTokens (fun _ => none) t) [.item (.document, 0)], hsource,
    rfl, hparsed, fun _ _ => rfl, fun _ _ _ => rfl, ?_⟩
  exact compilation_nests _ hparsed (fun n scope => (n.kind, scope.length)) (fun _ _ => rfl)
    fun _ _ _ => rfl

end Bracketry
