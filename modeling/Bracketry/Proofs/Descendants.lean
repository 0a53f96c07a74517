import Bracketry.Proofs.Kinship

/-!
# The descendants of a node

The stack that visits what is below a node keeps the siblings still to visit of each open
level. The tokens stand in one flat array, in the order of their admission, which is neither
the order of the source nor that of the tree. The visit still meets each proper node once,
and in the order of the source.

* `NodeTree.Parsed.visit_eq_take`: **the stack yields what is below a node, one node at a
  time, and then stops.**
* `NodeTree.Parsed.nodup_preorder`: no node stands twice in a branch.
* `NodeTree.Parsed.ordered`: a branch lies in the span of its head, in the order of the
  source.
* `root_enumerates`: **the root and what is below it are the proper nodes of the tree,** each
  of them once, in the order of the source and inside what encloses them.
-/

namespace Bracketry

variable {K : Type}

/-! ## The stack -/

namespace NodeTree

/-- What the stack has visited after some steps is the beginning of what it visits. -/
theorem take_visit (children : Nat → List Nat) (n m : Nat) (stack : List (List Nat)) :
    (visit children (n + m) stack).take n = visit children n stack := by
  induction n generalizing stack with
  | zero => rfl
  | succ n ih =>
    rw [Nat.add_right_comm, visit, visit]
    cases next? stack with
    | none => rfl
    | some top => rw [List.take_succ_cons, ih]

variable [DecidableEq K] [Taxonomy K]

/-- **The stack yields what is below a node,** one node at a time, and then stops. -/
theorem Parsed.visit_eq_take {n : Node K} (h : n.tree.Parsed) (hn : n.Genuine) (m : Nat) :
    visit n.tree.childIds m [n.tree.childIds n.id] = (n.below.map Node.id).take m := by
  obtain ⟨b, hb, rfl, hbelow⟩ := h.exists_below_eq hn
  have hgenuine := h.genuine_heads hb.heads rfl hn
  have hids := h.childIds_eq_heads hb.heads rfl hn
  have hvisits : ∀ part ∈ b.branches, Visits b.head.tree.childIds part := fun part hpart =>
    h.visits (hb.branch hpart) (hgenuine part hpart).1 (hgenuine part hpart).2
  have hrow := visit_row hvisits m []
  rw [← hids, visit_nil, List.append_nil, Nat.add_comm] at hrow
  -- with room for every node the stack has yielded all of them
  have htake := take_visit b.head.tree.childIds m (Branch.size.sizes b.branches)
    [b.head.tree.childIds b.head.id]
  rw [hrow] at htake
  rw [hbelow]
  exact htake.symm

end NodeTree

/-! ## Every node once -/

namespace Branch

theorem preorders_eq_flatMap (branches : List (Branch K)) :
    preorder.preorders branches = branches.flatMap preorder := by
  induction branches with
  | nil => rfl
  | cons b rest ih => rw [preorder.preorders, ih, List.flatMap_cons]

end Branch

namespace NodeTree.Parsed

variable [DecidableEq K] [Taxonomy K] {t : NodeTree K} {n : Node K}

/-- In a branch of a node that is no group there is no group, and the way up from its nodes
goes through the head. -/
theorem suffix_head {b : Branch K} (h : b.head.tree.Parsed) (hb : b.Grows) (hn : b.head.Genuine)
    (hg : b.head.isGroup = false) :
    ∀ n ∈ b.preorder, n.isGroup = false ∧ b.head :: b.head.ancestors <:+ n :: n.ancestors := by
  have hall := hb.forall_preorder (P := fun n => (n.tree = b.head.tree ∧ n.Genuine) ∧
    n.isGroup = false ∧ b.head :: b.head.ancestors <:+ n :: n.ancestors) ?_
    ⟨⟨rfl, hn⟩, hg, List.suffix_refl _⟩
  · exact fun n hmem => (hall n hmem).2
  · rintro n m ⟨⟨htree, hgenuine⟩, hgroup, hsuffix⟩ hm
    have hparsed : n.tree.Parsed := htree ▸ h
    obtain ⟨hmtree, hmgenuine, hmgroup, -⟩ := hparsed.child hgenuine hm
    refine ⟨⟨hmtree.trans htree, hmgenuine⟩, hmgroup, ?_⟩
    rw [hparsed.ancestors_child hgenuine hm, if_neg (by simp [hgroup])]
    exact hsuffix.trans (List.suffix_cons m _)

/-- The way up from what is in a branch of a node goes through the head of the branch, and then
through the node unless that is a group. -/
theorem suffix_child {head : Node K} {branches : List (Branch K)} (h : head.tree.Parsed)
    (hn : head.Genuine) (hheads : branches.map Branch.head = head.children.value) {b : Branch K}
    (hmem : b ∈ branches) (hb : b.Grows) :
    ∀ n ∈ b.preorder, n.isGroup = false ∧
      b.head :: (if head.isGroup then head.ancestors else head :: head.ancestors) <:+
        n :: n.ancestors := by
  have hchild : b.head ∈ head.children.value := hheads ▸ List.mem_map_of_mem hmem
  obtain ⟨htree, hgenuine, hgroup, -⟩ := h.child hn hchild
  rw [← h.ancestors_child hn hchild]
  exact suffix_head (htree ▸ h) hb hgenuine hgroup

/-- **No node stands twice in a branch.** -/
theorem nodup_preorder {b : Branch K} (h : t.Parsed) (hb : b.Grows) (htree : b.head.tree = t)
    (hn : b.head.Genuine) : b.preorder.Nodup := by
  induction hb with
  | @node head branches hheads hgrow ih =>
    obtain rfl : head.tree = t := htree
    have hgenuine := h.genuine_heads hheads rfl hn
    refine List.nodup_cons.2 ⟨fun hmem => ?_, ?_⟩
    · -- the way up from the head is too short to go through one of its children
      obtain ⟨b, hb, hmem⟩ := Branch.mem_preorders.1 hmem
      obtain ⟨hgroup, hlonger⟩ := suffix_child h hn hheads hb (hgrow b hb) head hmem
      have hlength := hlonger.length_le
      rw [if_neg (by simp [hgroup])] at hlength
      simp only [List.length_cons] at hlength
      omega
    · rw [Branch.preorders_eq_flatMap]
      refine List.nodup_flatMap.2 ⟨fun b hb => ih b hb (hgenuine b hb).1 (hgenuine b hb).2, ?_⟩
      have hnodup := h.nodup_children hn
      rw [← hheads] at hnodup
      refine (List.pairwise_map.1 hnodup).imp_of_mem ?_
      -- the ways up through two children are equally long, so a node is on one of them only
      intro b b' hb hb' hne n hmem hmem'
      have hone := (suffix_child h hn hheads hb (hgrow b hb) n hmem).2
      have hother := (suffix_child h hn hheads hb' (hgrow b' hb') n hmem').2
      have hsuffix := List.suffix_of_suffix_length_le hone hother (by simp)
      have hsame := hsuffix.eq_of_length (by simp)
      exact hne (List.cons.inj hsame).1

theorem nodup_root (h : t.Parsed) : ((t.root :: t.root.below).map Node.id).Nodup := by
  obtain ⟨b, hb, hroot, hbelow⟩ := exists_below_eq (n := t.root) h t.genuine_root
  have htree : b.head.tree = t := hroot ▸ rfl
  have hn : b.head.Genuine := hroot ▸ t.genuine_root
  have hnodup := h.nodup_preorder hb htree hn
  rw [hbelow, ← hroot, ← Branch.preorder_eq]
  refine hnodup.map_on fun m hm n hmem hid => ?_
  obtain ⟨hmtree, hmgenuine⟩ := h.genuine_branch hb htree hn m hm
  obtain ⟨hntree, hngenuine⟩ := h.genuine_branch hb htree hn n hmem
  unfold Node.Genuine at hmgenuine hngenuine
  rw [hmtree, hid, ← hntree, hngenuine] at hmgenuine
  exact (Option.some.inj hmgenuine).symm

/-! ## Every proper node -/

/-- **A proper node is the root or below it.** -/
theorem mem_root_below (h : t.Parsed) (hn : t.Has n) (hp : n.Proper) :
    n ∈ t.root :: t.root.below := by
  -- the parent of a node has a smaller number, so the induction goes up
  induction hid : n.id using Nat.strong_induction_on generalizing n with
  | _ i ih =>
    subst hid
    obtain ⟨rfl, hgenuine⟩ := has_iff.1 hn
    obtain ⟨rules, o, hd⟩ := h.exists_drawn
    have htoken := (node?_eq_some hn).2.2
    cases hparent : n.token.parent with
    | none =>
      rcases hd.mem_project_root htoken hp hparent with hid | hid
      · have hroot : n.tree.node? n.id = some n.tree.root := hid ▸ n.tree.genuine_root
        rw [hgenuine] at hroot
        exact List.mem_cons.2 (.inl (Option.some.inj hroot))
      · have hchild := mem_children_of_project (n := n.tree.root) h hn hid
        exact List.mem_cons_of_mem _ (mem_below_of_child (n := n.tree.root) h n.tree.genuine_root hchild)
    | some p =>
      obtain ⟨m, hm, rfl, hlt, ⟨rule, hvariant⟩, -⟩ := h.exists_parent hgenuine hparent
      obtain ⟨hmtree, hmgenuine⟩ := has_iff.1 hm
      have hproper : m.Proper := .of_tag hvariant
      have hmparsed : m.tree.Parsed := hmtree ▸ h
      have hchild : n ∈ m.children.value :=
        (hmparsed.mem_children_iff hmgenuine hproper.isGroup).2
          ⟨has_iff.2 ⟨hmtree.symm, hgenuine⟩, hp, hparent⟩
      rcases List.mem_cons.1 (ih m.id hlt hm hproper rfl) with hroot | hbelow
      · rw [hroot] at hchild
        exact List.mem_cons_of_mem _ (mem_below_of_child (n := n.tree.root) h n.tree.genuine_root hchild)
      · exact List.mem_cons_of_mem _
          (mem_below_step (n := n.tree.root) h n.tree.genuine_root hbelow hchild)

end NodeTree.Parsed

/-! ## The order of the source -/

/-- A node lies between two positions. -/
def Node.Within (n : Node K) (a b : Nat) : Prop :=
  ∃ span, n.token.span = some span ∧ a ≤ span.start ∧ span.start ≤ span.stop ∧ span.stop ≤ b

/-- A node does not start after another. -/
def Node.StartsBefore (m n : Node K) : Prop :=
  ∃ s s', m.token.span = some s ∧ n.token.span = some s' ∧ s.start ≤ s'.start

/-- The content of a node holds another node. -/
def Node.Encloses (a d : Node K) : Prop :=
  ∃ content, a.token.content = some content ∧ d.Within content.start content.stop

theorem Node.Within.mono {n : Node K} {a b a' b' : Nat} (h : n.Within a b) (ha : a' ≤ a)
    (hb : b ≤ b') : n.Within a' b' := by
  obtain ⟨span, hspan, hstart, hle, hstop⟩ := h
  exact ⟨span, hspan, by omega, hle, by omega⟩

theorem Node.Within.startsBefore {m n : Node K} {a b c : Nat} (hm : m.Within a b)
    (hn : n.Within b c) : m.StartsBefore n := by
  obtain ⟨s, hs, -, hle, hstop⟩ := hm
  obtain ⟨s', hs', hstart, -, -⟩ := hn
  exact ⟨s, s', hs, hs', by omega⟩

/-- A branch lies in the span of its head, and its nodes in the order of the source. -/
def Branch.Ordered (b : Branch K) : Prop :=
  ∀ span, b.head.token.span = some span →
    (∀ n ∈ b.preorder, n.Within span.start span.stop) ∧ b.preorder.Pairwise Node.StartsBefore

/-- Branches in a row are in the order of the source, one after the other. -/
theorem Branch.ordered_row {branches : List (Branch K)} {a b : Nat}
    (h : Adjacent a (branches.map fun b => b.head.token) b) (hall : ∀ b ∈ branches, b.Ordered) :
    a ≤ b ∧ (∀ n ∈ preorder.preorders branches, n.Within a b) ∧
      (preorder.preorders branches).Pairwise Node.StartsBefore := by
  induction branches generalizing a with
  | nil =>
    cases h
    exact ⟨Nat.le_refl _, fun _ hn => absurd hn List.not_mem_nil, .nil⟩
  | cons first rest ih =>
    cases h with
    | @cons _ m _ _ _ hspan hrest =>
      obtain ⟨hfirst, hall⟩ := List.forall_mem_cons.1 hall
      obtain ⟨hwithin, hsorted⟩ := hfirst _ hspan
      obtain ⟨hle, hrestWithin, hrestSorted⟩ := ih hrest hall
      have ham : a ≤ m := by
        obtain ⟨span, -, hstart, hspan, hstop⟩ := hwithin _ first.head_mem_preorder
        exact Nat.le_trans hstart (Nat.le_trans hspan hstop)
      refine ⟨Nat.le_trans ham hle, ?_, ?_⟩
      · intro n hn
        rcases List.mem_append.1 hn with hn | hn
        · exact (hwithin n hn).mono (Nat.le_refl _) hle
        · exact (hrestWithin n hn).mono ham (Nat.le_refl _)
      · rw [preorder.preorders]
        exact List.pairwise_append.2 ⟨hsorted, hrestSorted,
          fun m hm n hn => (hwithin m hm).startsBefore (hrestWithin n hn)⟩

namespace NodeTree.Parsed

variable [DecidableEq K] [Taxonomy K] {t : NodeTree K} {n d : Node K} {branches : List (Branch K)}

/-- The content of a node lies in its span. -/
theorem exists_spans (h : n.tree.Parsed) (hn : n.Genuine) : ∃ span content,
    n.token.span = some span ∧ n.token.content = some content ∧ span.start ≤ content.start ∧
      content.start ≤ content.stop ∧ content.stop ≤ span.stop := by
  obtain ⟨rules, o, hd⟩ := h.exists_drawn
  obtain ⟨start, x, y, z, hcut⟩ := hd.cut (node?_eq_some hn).2.2
  refine ⟨_, _, hcut.span_eq, hcut.content, ?_, ?_, ?_⟩
  · exact Nat.le_add_right _ _
  · exact Nat.le_add_right _ _
  · simp only [Segment.spanAt, Text.bytes_append]
    omega

/-- The children of a node stand in a row in its content. -/
theorem adjacent_children (h : n.tree.Parsed) (hn : n.Genuine) : ∃ a b c,
    n.token.content = some ⟨a, c⟩ ∧ Adjacent a (n.children.value.map Node.token) b ∧ b ≤ c := by
  obtain ⟨rules, o, hd⟩ := h.exists_drawn
  obtain ⟨children, hproject, hholds⟩ := hd.exists_holds (node?_eq_some hn).2.2
  obtain ⟨a, b, c, hcontent, habut, hle⟩ := hholds.row
  refine ⟨a, b, c, hcontent, ?_, hle⟩
  have hadjacent := TokenTree.adjacent_kept habut hholds.fits
  have htokens : n.children.value.map Node.token =
      (kept children).filterMap fun j => n.tree.tokens.tokens[j]? := by
    simp only [Node.children, h.childIds_eq, hproject, List.map_filterMap]
    refine List.filterMap_congr fun j _ => ?_
    rw [node?, Option.map_map]
    exact Option.map_id'
  rw [htokens]
  exact hadjacent

/-- The branches of a node lie in its content, in the order of the source. -/
theorem ordered_branches (h : n.tree.Parsed) (hn : n.Genuine)
    (hheads : branches.map Branch.head = n.children.value) (hall : ∀ b ∈ branches, b.Ordered) :
    ∃ content, n.token.content = some content ∧
      (∀ m ∈ Branch.preorder.preorders branches, m.Within content.start content.stop) ∧
      (Branch.preorder.preorders branches).Pairwise Node.StartsBefore := by
  obtain ⟨a, b, c, hcontent, hadjacent, hle⟩ := h.adjacent_children hn
  rw [← hheads, List.map_map] at hadjacent
  obtain ⟨-, hwithin, hsorted⟩ := Branch.ordered_row hadjacent hall
  exact ⟨_, hcontent, fun m hm => (hwithin m hm).mono (Nat.le_refl _) hle, hsorted⟩

/-- **A branch lies in the span of its head,** in the order of the source. -/
theorem ordered {b : Branch K} (h : t.Parsed) (hb : b.Grows) (htree : b.head.tree = t)
    (hn : b.head.Genuine) : b.Ordered := by
  induction hb with
  | @node head branches hheads _ ih =>
    obtain rfl : head.tree = t := htree
    have hgenuine := h.genuine_heads hheads rfl hn
    obtain ⟨content, hcontent, hwithin, hsorted⟩ := h.ordered_branches hn hheads
      fun b hb => ih b hb (hgenuine b hb).1 (hgenuine b hb).2
    obtain ⟨span, content', hspan, hcontent', hstart, hle, hstop⟩ := h.exists_spans hn
    obtain rfl : content = content' := Option.some.inj (hcontent.symm.trans hcontent')
    intro span' hspan'
    obtain rfl : span = span' := Option.some.inj (hspan.symm.trans hspan')
    have hhead : head.Within span.start span.stop :=
      ⟨span, hspan, Nat.le_refl _, by omega, Nat.le_refl _⟩
    have hrest : ∀ n ∈ Branch.preorder.preorders branches, n.Within span.start span.stop :=
      fun n hn => (hwithin n hn).mono hstart hstop
    refine ⟨List.forall_mem_cons.2 ⟨hhead, hrest⟩, List.pairwise_cons.2 ⟨fun n hn => ?_, hsorted⟩⟩
    obtain ⟨s, hs, hle, -, -⟩ := hrest n hn
    exact ⟨span, s, hspan, hs, hle⟩

/-- **The content of a node holds what is below the node.** -/
theorem encloses_below (h : n.tree.Parsed) (hn : n.Genuine) (hd : d ∈ n.below) : n.Encloses d := by
  obtain ⟨b, hb, rfl, hbelow⟩ := h.exists_below_eq hn
  rw [hbelow] at hd
  have hgenuine := h.genuine_heads hb.heads rfl hn
  have hordered : ∀ part ∈ b.branches, part.Ordered := fun part hpart =>
    h.ordered (hb.branch hpart) (hgenuine part hpart).1 (hgenuine part hpart).2
  obtain ⟨content, hcontent, hwithin, -⟩ := h.ordered_branches hn hb.heads hordered
  exact ⟨content, hcontent, hwithin d hd⟩

/-- What encloses a node is a tag of its tree. -/
theorem has_of_mem_ancestors {a : Node K} (h : d.tree.Parsed) (hd : d.Genuine)
    (ha : a ∈ d.ancestors) : d.tree.Has a ∧ a.isGroup = false := by
  induction hid : d.id using Nat.strong_induction_on generalizing d with
  | _ i ih =>
    subst hid
    cases hp : d.token.parent with
    | none =>
      rw [ancestors_eq_nil hp] at ha
      cases ha
    | some p =>
      obtain ⟨m, hm, rfl, hlt, ⟨rule, hvariant⟩, hancestors⟩ := h.exists_parent hd hp
      rw [hancestors] at ha
      rcases List.mem_cons.1 ha with rfl | ha
      · exact ⟨hm, (Node.Proper.of_tag hvariant).isGroup⟩
      · obtain ⟨hmtree, hmgenuine⟩ := has_iff.1 hm
        have hup := ih m.id hlt (d := m) (hmtree ▸ h) hmgenuine ha rfl
        rwa [hmtree] at hup

end NodeTree.Parsed

/-! ## Parsed trees -/

/-- **A tree is enumerated by what is below its root.** The stack yields the recursive
pre-order of any node and then stops. The root and what is below it are the proper nodes, each
of them once. A node lies in the content of what encloses it, and no node starts before the
one that comes before it. -/
structure NodeTree.Enumerated (t : NodeTree K) : Prop where
  preorder : ∀ n : Node K, t.Has n →
    ∃ b : Branch K, b.Grows ∧ b.head = n ∧ n.below = Branch.preorder.preorders b.branches
  stack : ∀ (n : Node K) (m : Nat), t.Has n →
    visit t.childIds m [t.childIds n.id] = (n.below.map Node.id).take m
  nodup : ((t.root :: t.root.below).map Node.id).Nodup
  complete : ∀ i : Nat, i ∈ (t.root :: t.root.below).map Node.id ↔
    i = t.root.id ∨ ∃ token, t.tokens.tokens[i]? = some token ∧ t.tokens.Proper token
  enclosed : ∀ d ∈ t.root :: t.root.below, ∀ a ∈ d.ancestors, a.Encloses d
  inOrder : (t.root :: t.root.below).Pairwise Node.StartsBefore

section

variable [DecidableEq K] [Taxonomy K] {t : NodeTree K}

/-- **The root and what is below it are the proper nodes of a parsed tree,** each of them once,
in the order of the source and inside what encloses them. -/
theorem root_enumerates (h : t.Parsed) : t.Enumerated := by
  have hbelow : ∀ d ∈ t.root.below, t.Has d ∧ d.Proper := fun d hd =>
    NodeTree.Parsed.proper_of_mem_below (n := t.root) h t.genuine_root hd
  refine ⟨?_, ?_, h.nodup_root, ?_, ?_, ?_⟩
  · intro n hn
    obtain ⟨rfl, hgenuine⟩ := NodeTree.has_iff.1 hn
    exact h.exists_below_eq hgenuine
  · intro n m hn
    obtain ⟨rfl, hgenuine⟩ := NodeTree.has_iff.1 hn
    exact h.visit_eq_take hgenuine m
  · intro i
    rw [List.map_cons, List.mem_cons]
    constructor
    · rintro (rfl | hi)
      · exact .inl rfl
      · obtain ⟨d, hd, rfl⟩ := List.mem_map.1 hi
        obtain ⟨hhas, hproper⟩ := hbelow d hd
        obtain ⟨rfl, -, htoken⟩ := NodeTree.node?_eq_some hhas
        exact .inr ⟨d.token, htoken, hproper⟩
    · rintro (rfl | ⟨token, htoken, hproper⟩)
      · exact .inl rfl
      · have hnode : t.node? i = some ⟨t, i, token⟩ := by
          rw [NodeTree.node?, htoken]
          rfl
        have hmem := h.mem_root_below (n := ⟨t, i, token⟩) hnode hproper
        rw [← List.mem_cons, ← List.map_cons]
        exact List.mem_map_of_mem hmem
  · intro d hd a ha
    rcases List.mem_cons.1 hd with rfl | hd
    · rw [h.ancestors_root] at ha
      cases ha
    · obtain ⟨hhas, hproper⟩ := hbelow d hd
      obtain ⟨rfl, hgenuine⟩ := NodeTree.has_iff.1 hhas
      obtain ⟨haHas, hgroup⟩ := h.has_of_mem_ancestors hgenuine ha
      obtain ⟨hatree, hagenuine⟩ := NodeTree.has_iff.1 haHas
      have haparsed : a.tree.Parsed := hatree ▸ h
      have hmem := (haparsed.mem_below_iff hagenuine hgroup (hatree ▸ hhas)).2 ⟨hproper, ha⟩
      exact haparsed.encloses_below hagenuine hmem
  · obtain ⟨b, hb, hroot, hbelow⟩ :=
      NodeTree.Parsed.exists_below_eq (n := t.root) h t.genuine_root
    have hordered := h.ordered hb (hroot ▸ rfl) (hroot ▸ t.genuine_root)
    obtain ⟨span, -, hspan, -⟩ := NodeTree.Parsed.exists_spans (n := t.root) h t.genuine_root
    rw [hbelow, ← hroot, ← Branch.preorder_eq]
    exact (hordered span (hroot ▸ hspan)).2

end

theorem root_enumerates_sample : ∃ t : NodeTree Template.Kind,
    t.tokens.source = Template.sample ∧ t.Parsed ∧ t.Enumerated := by
  obtain ⟨tokens, hscan, -⟩ := Template.scan_sample
  have hparsed : (NodeTree.ofTokens Template.constraints tokens).Parsed :=
    .scan Template.constraints hscan
  exact ⟨_, (TokenTree.scan_drawn hscan).1, hparsed, root_enumerates hparsed⟩

end Bracketry
