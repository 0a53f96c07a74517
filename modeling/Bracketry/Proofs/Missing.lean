import Bracketry.Proofs.Admission

/-!
# Where rendering fails

Rendering fails at a variable without a value, unless the variable stands in an optional
section: the nearest section takes the failure and renders as nothing, so nothing outside that
section learns of it.

* `Template.sections`: the optional sections that enclose a node.
* `Template.Stopped`: a rendering stops at the first variable that is missing, or it gives a text
  if none is.
* `Template.stopped_evaluate`: **a branch is stopped by the missing variables that are in no
  section of the branch.**
* `Template.link_fails_iff`: **a template fails to render if a variable outside of all sections
  is missing,** and the error names the first of these in the order of the source.
-/

namespace Bracketry

/-! ## Literals have no children -/

/-- A token of the kind of literals has no children, if no rule is of that kind. -/
theorem TokenTree.Drawn.project_literal {K : Type} {rules : Ruleset K} {t : TokenTree K}
    {o : Outline K} {i : Nat} {token : Token K} (h : t.Drawn rules o)
    (hrules : ∀ rule ∈ rules.rules, rule.kind ≠ rules.literalKind) (hi : t.tokens[i]? = some token)
    (hk : token.kind = rules.literalKind) (hg : token.isGroup = false) :
    NodeTree.project t i = [] := by
  obtain ⟨c, hc, rfl⟩ := h.token_stands hi
  cases hc with
  | @own site hs =>
    obtain ⟨segment, parent, start, id, next⟩ := site
    cases segment with
    | literal plain swallowed => simp only [NodeTree.project, hi]; rfl
    | tag tag content closing => simp only [NodeTree.project, hi]; rfl
    | nest tag seed first siblings closing =>
      -- the token has the kind of the rule that opened it
      have hrule := h.rule_of_tag hs (.nest tag seed first siblings closing)
      exact absurd hk (hrules tag.rule (List.mem_of_getElem? hrule))
  | seed hs => exact h.project_seed hs
  | @group tag seed closing first siblings parent start id next _ =>
    have hab := Site.abut_nest tag seed closing first siblings parent start id next
    rw [Course.token_group _ _ hab] at hg
    cases hg
  | root _ =>
    rw [Course.token_group _ _ o.abut_sites] at hg
    cases hg

namespace NodeTree.Parsed

variable {K : Type} [DecidableEq K] [Taxonomy K] {t : NodeTree K} {n m : Node K}

/-- A child is a node of the tree and no group. -/
theorem has_child (h : t.Parsed) (hn : t.Has n) (hm : m ∈ n.children.value) :
    t.Has m ∧ m.isGroup = false := by
  obtain ⟨rfl, hgenuine⟩ := has_iff.1 hn
  obtain ⟨htree, hmgenuine, hgroup, -⟩ := h.child hgenuine hm
  exact ⟨has_iff.2 ⟨htree, hmgenuine⟩, hgroup⟩

end NodeTree.Parsed

namespace Template

variable {t : NodeTree Kind} {o : Outline Kind} {n m : Node Kind} {b : Branch Kind} {args : Bindings}

/-- Plain text has no children. -/
theorem children_text (h : t.Parsed) (hd : t.tokens.Drawn rules o) (hn : t.Has n)
    (hg : n.isGroup = false) (hk : n.kind = .text) : n.children.value = [] := by
  obtain ⟨rfl, -, htoken⟩ := NodeTree.node?_eq_some hn
  have hrules : ∀ rule ∈ rules.rules, rule.kind ≠ .text := by
    intro rule hrule
    rcases kind_of_mem_rules hrule with hk | hk | hk <;> rw [hk] <;> decide
  have hproject := hd.project_literal hrules htoken hk hg
  rw [Node.children, h.childIds_eq, hproject]
  rfl

/-! ## Sections -/

/-- The optional sections that enclose a node, nearest first. -/
def sections (n : Node Kind) : List (Node Kind) := n.ancestors.filter (·.kind == .optional)

/-- A variable that has no value, in some sections and no others. -/
structure Missing (args : Bindings) (enclosing : List (Node Kind)) (n : Node Kind) : Prop where
  kind : n.kind = .var
  sections : sections n = enclosing
  value : args.get? (varName n) = none

/-- A child is in the sections of its node, and in the node if that is a section. -/
theorem sections_child (h : t.Parsed) (hn : t.Has n) (hg : n.isGroup = false)
    (hm : m ∈ n.children.value) :
    sections m = if n.kind = .optional then n :: sections n else sections n := by
  obtain ⟨rfl, hgenuine⟩ := NodeTree.has_iff.1 hn
  have hancestors := NodeTree.Parsed.ancestors_child h hgenuine hm
  rw [if_neg (by simp [hg])] at hancestors
  simp only [sections, hancestors, List.filter_cons, beq_iff_eq]

/-- What is in a branch is in the sections of the head. -/
theorem suffix_sections (h : t.Parsed) (hb : b.Grows) (hn : t.Has b.head)
    (hg : b.head.isGroup = false) : ∀ n ∈ b.preorder, sections b.head <:+ sections n := by
  have hall := hb.forall_preorder
    (P := fun n => (t.Has n ∧ n.isGroup = false) ∧ sections b.head <:+ sections n) ?_
    ⟨⟨hn, hg⟩, List.suffix_refl _⟩
  · exact fun n hmem => (hall n hmem).2
  · rintro n m ⟨⟨hn, hg⟩, hsuffix⟩ hm
    refine ⟨h.has_child hn hm, ?_⟩
    rw [sections_child h hn hg hm]
    by_cases hk : n.kind = .optional
    · rw [if_pos hk]
      exact hsuffix.trans (List.suffix_cons n _)
    · rw [if_neg hk]
      exact hsuffix

/-- What is below a section is not in the same sections as the section itself. -/
theorem sections_ne (h : t.Parsed) (hn : t.Has n) (hg : n.isGroup = false) (hk : n.kind = .optional)
    {branches : List (Branch Kind)} (hheads : branches.map Branch.head = n.children.value)
    (hgrow : ∀ b ∈ branches, b.Grows) :
    ∀ m ∈ Branch.preorder.preorders branches, sections m ≠ sections n := by
  intro m hm hsame
  obtain ⟨b, hb, hm⟩ := Branch.mem_preorders.1 hm
  have hchild : b.head ∈ n.children.value := hheads ▸ List.mem_map_of_mem hb
  obtain ⟨hhas, hgroup⟩ := h.has_child hn hchild
  -- it is in one section more
  have hlength := (suffix_sections h (hgrow b hb) hhas hgroup m hm).length_le
  rw [sections_child h hn hg hchild, if_pos hk, hsame, List.length_cons] at hlength
  omega

/-- Only a variable can be missing. -/
theorem not_missing {enclosing : List (Node Kind)} (hk : n.kind ≠ .var) :
    ¬Missing args enclosing n := fun hmissing => hk hmissing.kind

/-! ## Where evaluation stops -/

/-- **A result that stops at the first missing node,** in the order of the nodes, or is a text if
none of them is missing. -/
inductive Stopped (missing : Node Kind → Prop) (nodes : List (Node Kind)) :
    Except Failure String → Prop
  | text (text : String) : (∀ n ∈ nodes, ¬missing n) → Stopped missing nodes (.ok text)
  | first (before : List (Node Kind)) (n : Node Kind) (after : List (Node Kind)) :
      nodes = before ++ n :: after → (∀ m ∈ before, ¬missing m) → missing n →
      Stopped missing nodes (.error (.missingArgument (varName n)))

namespace Stopped

variable {missing : Node Kind → Prop} {nodes more : List (Node Kind)}
  {result next : Except Failure String}

theorem map (h : Stopped missing nodes result) (f : String → String) :
    Stopped missing nodes (result.map f) := by
  cases h with
  | text text hnone => exact .text (f text) hnone
  | first before n after hnodes hnone hmissing => exact .first before n after hnodes hnone hmissing

/-- A node that is not missing does not stop anything. -/
theorem cons (hn : ¬missing n) (h : Stopped missing nodes result) :
    Stopped missing (n :: nodes) result := by
  cases h with
  | text text hnone => exact .text text (List.forall_mem_cons.2 ⟨hn, hnone⟩)
  | first before m after hnodes hnone hmissing =>
    exact .first (n :: before) m after (by rw [hnodes, List.cons_append])
      (List.forall_mem_cons.2 ⟨hn, hnone⟩) hmissing

/-- Nodes in a row stop where the first of them stop, and else where the others do. -/
theorem append (h : Stopped missing nodes result) (hmore : Stopped missing more next) :
    Stopped missing (nodes ++ more)
      (result >>= fun text => next >>= fun rest => .ok (text ++ rest)) := by
  cases h with
  | first before n after hnodes hnone hmissing =>
    exact .first before n (after ++ more) (by simp [hnodes]) hnone hmissing
  | text text hnone =>
    cases hmore with
    | text rest hrest => exact .text (text ++ rest) (List.forall_mem_append.2 ⟨hnone, hrest⟩)
    | first before n after hnodes hrest hmissing =>
      exact .first (nodes ++ before) n after (by simp [hnodes])
        (List.forall_mem_append.2 ⟨hnone, hrest⟩) hmissing

/-- A result is an error if a node is missing. -/
theorem error_iff (h : Stopped missing nodes result) :
    (∃ e, result = .error e) ↔ ∃ n ∈ nodes, missing n := by
  cases h with
  | text text hnone =>
    constructor
    · rintro ⟨e, he⟩
      cases he
    · rintro ⟨n, hn, hmissing⟩
      exact absurd hmissing (hnone n hn)
  | first before n after hnodes hnone hmissing =>
    exact iff_of_true ⟨_, rfl⟩ ⟨n, by simp [hnodes], hmissing⟩

end Stopped

/-- **A section catches what stops in it.** It gives nothing then, and else what its children
give. -/
theorem evaluate_optional {branches : List (Branch Kind)} {missing : Node Kind → Prop}
    {nodes : List (Node Kind)} (hk : n.kind = .optional)
    (h : Stopped missing nodes (evaluate.all args branches)) :
    ((∃ m ∈ nodes, missing m) ∧ evaluate args (.node n branches) = .ok "") ∨
      (∀ m ∈ nodes, ¬missing m) ∧ ∃ text, evaluate.all args branches = .ok text ∧
        evaluate args (.node n branches) = .ok text := by
  simp only [evaluate, hk]
  cases hall : evaluate.all args branches with
  | ok text =>
    rw [hall] at h
    cases h with
    | text _ hnone => exact .inr ⟨hnone, text, rfl, rfl⟩
  | error e =>
    rw [hall] at h
    cases h with
    | first before m after hnodes _ hmissing =>
      exact .inl ⟨⟨m, by simp [hnodes], hmissing⟩, rfl⟩

/-- Branches in a row stop at the first node at which one of them stops. -/
theorem stopped_row {missing : Node Kind → Prop} {branches : List (Branch Kind)}
    (h : ∀ b ∈ branches, Stopped missing b.preorder (evaluate args b)) :
    Stopped missing (Branch.preorder.preorders branches) (evaluate.all args branches) := by
  induction branches with
  | nil =>
    rw [evaluate.all]
    exact .text "" fun _ hn => absurd hn List.not_mem_nil
  | cons b rest ih =>
    obtain ⟨hb, hrest⟩ := List.forall_mem_cons.1 h
    rw [evaluate.all, Branch.preorder.preorders]
    exact hb.append (ih hrest)

/-- The children of a node stop at what is missing in the same sections as they are. -/
theorem stopped_children (h : t.Parsed) (hn : t.Has n) (hg : n.isGroup = false)
    {branches : List (Branch Kind)} (hheads : branches.map Branch.head = n.children.value)
    (hall : ∀ b ∈ branches, t.Has b.head → b.head.isGroup = false →
      Stopped (Missing args (sections b.head)) b.preorder (evaluate args b)) :
    Stopped (Missing args (if n.kind = .optional then n :: sections n else sections n))
      (Branch.preorder.preorders branches) (evaluate.all args branches) := by
  refine stopped_row fun b hb => ?_
  have hchild : b.head ∈ n.children.value := hheads ▸ List.mem_map_of_mem hb
  obtain ⟨hhas, hgroup⟩ := h.has_child hn hchild
  rw [← sections_child h hn hg hchild]
  exact hall b hb hhas hgroup

/-- **A branch is stopped by the missing variables that are in no section of the branch.** What
is missing inside of a section stops the section only. -/
theorem stopped_evaluate (h : t.Parsed) (hd : t.tokens.Drawn rules o) (hb : b.Grows)
    (hn : t.Has b.head) (hg : b.head.isGroup = false) (hall : ∀ n ∈ b.preorder, Regular n) :
    Stopped (Missing args (sections b.head)) b.preorder (evaluate args b) := by
  induction hb with
  | @node head branches hheads hgrow ih =>
    have hn : t.Has head := hn
    have hg : head.isGroup = false := hg
    obtain ⟨hregular, hbelow⟩ := List.forall_mem_cons.1 hall
    have hrow : Stopped (Missing args _) _ (evaluate.all args branches) :=
      stopped_children h hn hg hheads fun b hb hhas hgroup =>
        ih b hb hhas hgroup fun n hn => hbelow n (Branch.mem_preorders.2 ⟨b, hb, hn⟩)
    have hleaf : head.children.value = [] → branches = [] := fun hnil =>
      List.map_eq_nil_iff.1 (hheads.trans hnil)
    rcases hregular.kind with hk | hk | hk | hk
    · -- plain text
      obtain rfl := hleaf (children_text h hd hn hg hk)
      simp only [evaluate, hk]
      exact .text _ (List.forall_mem_singleton.2 (not_missing (by simp [hk])))
    · -- a variable
      obtain rfl := hleaf (hregular.var hk)
      simp only [evaluate, hk]
      cases hvalue : args.get? (varName head) with
      | some value =>
        have hmissing : ¬Missing args (sections head) head := by
          intro hmissing
          rw [hmissing.value] at hvalue
          cases hvalue
        exact .text value (List.forall_mem_singleton.2 hmissing)
      | none =>
        exact .first [] head [] rfl (fun _ hm => absurd hm List.not_mem_nil) ⟨hk, rfl, hvalue⟩
    · -- a filter is stopped by what stops its children
      rw [if_neg (by simp [hk])] at hrow
      refine Stopped.cons (not_missing (by simp [hk])) ?_
      simp only [evaluate, hk]
      cases branches with
      | nil => exact .text _ fun _ hn => absurd hn List.not_mem_nil
      | cons b rest => exact hrow.map (transform head)
    · -- a section is stopped by nothing
      rw [if_pos hk] at hrow
      have htext : ∃ text, evaluate args (.node head branches) = .ok text := by
        rcases evaluate_optional hk hrow with ⟨-, hnothing⟩ | ⟨-, text, -, htext⟩
        · exact ⟨"", hnothing⟩
        · exact ⟨text, htext⟩
      obtain ⟨text, htext⟩ := htext
      have hother := sections_ne h hn hg hk hheads hgrow
      rw [htext]
      refine .text text (List.forall_mem_cons.2 ⟨not_missing (by simp [hk]), ?_⟩)
      exact fun m hm hmissing => hother m hm hmissing.sections

/-! ## Compiled templates -/

/-- A template source and what it was compiled to: its tree, the branch of the root, and the
output, which is what the nodes of the branch emit. -/
structure Compiles (source : String) (args : List (String × String)) (out : Assembly Piece)
    (tree : NodeTree Kind) (b : Branch Kind) : Prop where
  read : grammar.read .default source.toList = .ok tree
  grows : b.Grows
  root : b.head = tree.root
  emitted : tree.emitted = Branch.preorder.preorders b.tops
  regular : ∀ n ∈ Branch.preorder.preorders b.tops, Regular n
  out : out = output b args

/-- The output of a template comes from its tree. -/
theorem exists_compiles {source : String} {args : List (String × String)} {out : Assembly Piece}
    (h : compile source args = .ok out) : ∃ tree b, Compiles source args out tree b := by
  obtain ⟨tree, b, hread, hb, hroot, hjudge, hout⟩ := compile_eq_ok_iff.1 h
  have hparsed := parsed_of_read hread
  obtain ⟨b', hb', hroot', hsize⟩ := hparsed.exists_branch
  obtain rfl := hb.unique hb' (hroot.trans hroot'.symm)
  have hemitted := hparsed.emitted_eq_preorder hb hroot hsize
  refine ⟨tree, b, hread, hb, hroot, hemitted, fun n hn => ?_, hout⟩
  obtain ⟨htree, hgenuine, hgroup⟩ := hparsed.of_mem_preorders hb hroot n hn
  have hallowed : (isAllowed n).value = .ok true :=
    Grammar.judge_eq_ok_iff.1 (hjudge n (hemitted ▸ hn))
  obtain ⟨o, hd⟩ := drawn_of_read hread
  obtain ⟨tokens, -, rfl⟩ := of_read_eq_ok hread
  exact regular_of_allowed hd htree (htree ▸ hparsed) hgenuine hgroup hallowed

namespace Compiles

variable {source : String} {args : List (String × String)} {out : Assembly Piece}
  {tree : NodeTree Kind}

/-- The outermost branches belong to nodes of the tree that no section encloses. -/
theorem of_mem_tops (h : Compiles source args out tree b) {top : Branch Kind} (htop : top ∈ b.tops) :
    top.Grows ∧ tree.Has top.head ∧ top.head.isGroup = false ∧ sections top.head = [] := by
  obtain ⟨hgrow, htree, hn, hgroup, hancestors⟩ :=
    (parsed_of_read h.read).of_mem_tops h.grows h.root top htop
  refine ⟨hgrow, NodeTree.has_iff.2 ⟨htree, hn⟩, hgroup, ?_⟩
  rw [sections, hancestors]
  rfl

/-- The output renders as the branches evaluate. -/
theorem renders (h : Compiles source args out tree b) :
    renderPieces out = evaluate.all (.ofList args) b.tops := by
  rw [h.out, output]
  exact renderPieces_entries b.tops (fun top htop => (h.of_mem_tops htop).1) h.regular

/-- The output renders up to the first missing variable that is in no section. -/
theorem stopped (h : Compiles source args out tree b) :
    Stopped (Missing (.ofList args) []) tree.emitted (renderPieces out) := by
  obtain ⟨o, hd⟩ := drawn_of_read h.read
  rw [h.renders, h.emitted]
  refine stopped_row fun top htop => ?_
  obtain ⟨hgrow, hhas, hgroup, hsections⟩ := h.of_mem_tops htop
  have hregular : ∀ n ∈ top.preorder, Regular n := fun n hn =>
    h.regular n (Branch.mem_preorders.2 ⟨top, htop, hn⟩)
  rw [← hsections]
  exact stopped_evaluate (parsed_of_read h.read) hd hgrow hhas hgroup hregular

end Compiles

/-- A variable is emitted. -/
theorem mem_emitted_of_missing {source : String} {tree : NodeTree Kind}
    {enclosing : List (Node Kind)} (h : grammar.read .default source.toList = .ok tree)
    (hn : tree.Has n) (hm : Missing args enclosing n) : n ∈ tree.emitted :=
  mem_emitted h hn (by simp [hm.kind]) (by simp [hm.kind])

/-- **A template fails to render if a variable outside of all sections is missing,** and then the
error names the first of these in pre-order. -/
theorem link_fails_iff {source : String} {args : List (String × String)} {out : Assembly Piece}
    (h : compile source args = .ok out) :
    ∃ tree, grammar.read .default source.toList = .ok tree ∧
      ((∃ e, renderPieces out = .error e) ↔ ∃ n, tree.Has n ∧ Missing (.ofList args) [] n) ∧
      ∀ e, renderPieces out = .error e → ∃ before n after,
        tree.root :: tree.root.below = before ++ n :: after ∧
          (∀ m ∈ before, ¬Missing (.ofList args) [] m) ∧ Missing (.ofList args) [] n ∧
            e = .missingArgument (varName n) := by
  obtain ⟨tree, b, hcompiles⟩ := exists_compiles h
  have hread := hcompiles.read
  have hstopped := hcompiles.stopped
  refine ⟨tree, hread, ?_, ?_⟩
  · rw [hstopped.error_iff]
    constructor
    · rintro ⟨n, hn, hmissing⟩
      exact ⟨n, (has_of_mem_emitted hread hn).1, hmissing⟩
    · rintro ⟨n, hn, hmissing⟩
      exact ⟨n, mem_emitted_of_missing hread hn hmissing, hmissing⟩
  · intro e he
    rw [he] at hstopped
    have hroot : tree.root.isGroup = true → ¬Missing (.ofList args) [] tree.root := by
      intro hg hmissing
      have hmem := mem_emitted_of_missing hread tree.genuine_root hmissing
      obtain ⟨-, hgroup⟩ := has_of_mem_emitted hread hmem
      rw [hg] at hgroup
      cases hgroup
    have hall : Stopped (Missing (.ofList args) []) (tree.root :: tree.root.below) (.error e) := by
      unfold NodeTree.emitted at hstopped
      by_cases hg : tree.root.isGroup = true
      · rw [if_pos hg] at hstopped
        exact hstopped.cons (hroot hg)
      · rwa [if_neg hg] at hstopped
    cases hall with
    | first before n after hnodes hnone hmissing =>
      exact ⟨before, n, after, hnodes, hnone, hmissing, rfl⟩

/-- A template with a variable in a section and then one outside. -/
def greeting : String := "\x7b?\x7b\x7bx\x7d\x7d?\x7d\x7b\x7by\x7d\x7d"

/-- Without arguments the variable outside is missed, and the one in the section is not. -/
theorem link_fails_iff_greeting :
    ∃ out, compile greeting [] = .ok out ∧ renderPieces out = .error (.missingArgument "y") ∧
      ∃ tree, grammar.read .default greeting.toList = .ok tree ∧
        ((∃ e, renderPieces out = .error e) ↔ ∃ n, tree.Has n ∧ Missing (.ofList []) [] n) ∧
        ∀ e, renderPieces out = .error e → ∃ before n after,
          tree.root :: tree.root.below = before ++ n :: after ∧
            (∀ m ∈ before, ¬Missing (.ofList []) [] m) ∧ Missing (.ofList []) [] n ∧
              e = .missingArgument (varName n) := by
  obtain ⟨out, hout, hfails⟩ := TokenTree.exists_ok_of_any (x := compile greeting [])
    (p := fun out => match renderPieces out with
      | .error e => decide (e = .missingArgument "y")
      | .ok _ => false) (by cbv)
  have herror : renderPieces out = .error (.missingArgument "y") := by
    cases hr : renderPieces out with
    | ok text => simp [hr] at hfails
    | error e => simpa [hr] using hfails
  exact ⟨out, hout, herror, link_fails_iff hout⟩

end Template

end Bracketry
