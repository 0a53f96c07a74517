import Bracketry.Proofs.Emission
import Bracketry.Proofs.Preorder
import Bracketry.Proofs.Runs
import Bracketry.Template.Render

/-!
# What a template means

A compiled template is flat: a block is followed by the sequence of its inner pieces, and
rendering pairs the two up again. What comes out is the evaluation of the tree of the
source, node by node.

* `Template.evaluate`: the text of a branch, given the arguments.
* `Branch.visit_eq_append`: a visit appends the entries of its branch.
* `Template.renderPieces_entries`: the entries of branches render as the branches
  evaluate.
* `Template.render_evaluates`: **a template that compiles renders as its tree
  evaluates.**
-/

namespace Bracketry

/-! ## Entries -/

namespace Branch

variable {K I : Type}

/-- What a visit appends if a node emits one item: the item, and the entries of the
branches below nested after it. -/
def entries (item : Node K → I) : Branch K → Assembly I
  | .node head branches =>
    .item (item head) :: if branches.isEmpty then [] else [.nested (all item branches)]
where
  /-- The entries of branches in order. -/
  all (item : Node K → I) : List (Branch K) → Assembly I
    | [] => []
    | b :: rest => b.entries item ++ all item rest

variable {make : Node K → Assembly I → Except Error (Assembly I)} {item : Node K → I}

mutual

/-- **A visit appends the entries of its branch,** if a node that is made adds one
item. -/
theorem visit_eq_append
    (hmake : ∀ n scope made, make n scope = .ok made → made = scope.push (item n)) (b : Branch K)
    {scope out : Assembly I} (h : b.visit make scope = .ok out) : out = scope ++ b.entries item := by
  cases b with
  | node head branches =>
    rw [visit] at h
    obtain ⟨made, hhead, h⟩ := bind_eq_ok_iff.1 h
    obtain rfl := hmake head scope made hhead
    cases branches with
    | nil =>
      cases h
      rfl
    | cons b rest =>
      rw [if_neg (by simp)] at h
      obtain ⟨inner, hall, h⟩ := bind_eq_ok_iff.1 h
      cases h
      have hinner := visit_all_eq_append hmake (b :: rest) hall
      rw [List.nil_append] at hinner
      rw [hinner]
      simp [Assembly.push, Assembly.pushNested, entries]

theorem visit_all_eq_append
    (hmake : ∀ n scope made, make n scope = .ok made → made = scope.push (item n))
    (branches : List (Branch K)) {scope out : Assembly I}
    (h : visit.all make branches scope = .ok out) : out = scope ++ entries.all item branches := by
  cases branches with
  | nil => cases h; simp [entries.all]
  | cons b rest =>
    rw [visit.all] at h
    obtain ⟨mid, hb, hrest⟩ := bind_eq_ok_iff.1 h
    have hmid := visit_eq_append hmake b hb
    have hout := visit_all_eq_append hmake rest hrest
    rw [hout, hmid, entries.all, List.append_assoc]

end

end Branch

namespace Template

/-! ## Evaluation -/

/-- The transformation of a filter node. -/
def transform (n : Node Kind) (s : String) : String :=
  match filterOf? n with
  | some f => f.apply s
  | none => s

/-- The text of a node, given the arguments. A plain text gives itself and a variable its
value. A filter transforms what its children give, or its content if it has none. An
optional section gives what its children give, or nothing where an argument is
missing. -/
def evaluate (args : Bindings) : Branch Kind → Except Failure String
  | .node n branches =>
    match n.kind with
    | .text => .ok (String.ofList n.text)
    | .var =>
      match args.get? (varName n) with
      | some value => .ok value
      | none => .error (.missingArgument (varName n))
    | .filter =>
      if branches.isEmpty then .ok (transform n (String.ofList n.content))
      else (all args branches).map (transform n)
    | .optional =>
      match all args branches with
      | .error (.missingArgument _) => .ok ""
      | result => result
    | _ => all args branches
where
  /-- The texts of siblings from left to right; the first error wins. -/
  all (args : Bindings) : List (Branch Kind) → Except Failure String
    | [] => .ok ""
    | b :: rest => do
      let text ← evaluate args b
      .ok (text ++ (← all args rest))

/-- What is known of a node that a template emits. -/
structure Regular (n : Node Kind) : Prop where
  kind : n.kind = .text ∨ n.kind = .var ∨ n.kind = .filter ∨ n.kind = .optional
  var : n.kind = .var → n.children.value = []
  filter : n.kind = .filter → (filterOf? n).isSome
  optional : n.kind = .optional → n.children.value ≠ []

/-! ## Rendering entries -/

theorem renderPieces_nested {piece : Piece} {entries rest : Assembly Piece} :
    renderPieces (.item piece :: .nested entries :: rest) =
      (piece.render fun _ => renderPieces entries) >>= fun text =>
        renderPieces rest >>= fun more => .ok (text ++ more) := by
  rw [renderPieces]

/-- A piece has its own body unless a nested sequence follows. -/
theorem renderPieces_item {piece : Piece} {rest : Assembly Piece}
    (h : ∀ entries more, rest ≠ .nested entries :: more) :
    renderPieces (.item piece :: rest) =
      piece.render .ok >>= fun text => renderPieces rest >>= fun more => .ok (text ++ more) := by
  rw [renderPieces]
  exact h

/-- Entries begin with an item. -/
theorem entries_all_ne_nested {item : Node Kind → Piece} (branches : List (Branch Kind))
    (inner more : Assembly Piece) : Branch.entries.all item branches ≠ .nested inner :: more := by
  cases branches with
  | nil => simp [Branch.entries.all]
  | cons b rest =>
    cases b
    simp [Branch.entries.all, Branch.entries]

variable {args : Bindings}

/-- A piece renders as its node evaluates, given what the branches below render as. -/
theorem render_piece {n : Node Kind} {branches : List (Branch Kind)} (hn : Regular n)
    (hheads : branches.map Branch.head = n.children.value) {body : String → Except Failure String}
    (hbody : body = if branches.isEmpty then .ok else fun _ => evaluate.all args branches) :
    (piece n args).render body = evaluate args (.node n branches) := by
  subst hbody
  rcases hn.kind with hk | hk | hk | hk
  · simp only [piece, evaluate, hk, Piece.render]
  · simp only [piece, evaluate, hk]
    cases args.get? (varName n) <;> rfl
  · obtain ⟨f, hf⟩ := Option.isSome_iff_exists.1 (hn.filter hk)
    have htransform : transform n = f.apply := by
      funext s
      rw [transform, hf]
    simp only [piece, evaluate, hk, hf, Piece.render, htransform]
    cases branches.isEmpty <;> rfl
  · have hne := hn.optional hk
    cases branches with
    | nil => exact absurd hheads.symm hne
    | cons b rest =>
      cases hall : evaluate.all args (b :: rest) with
      | ok text =>
        simp only [piece, evaluate, hk, Piece.render, List.isEmpty_cons, Bool.false_eq_true, if_false,
          hall]
      | error e =>
        cases e <;> simp only [piece, evaluate, hk, Piece.render, List.isEmpty_cons,
          Bool.false_eq_true, if_false, hall]

mutual

/-- The entries of a branch render as the branch evaluates, before whatever follows that
is no nested sequence. -/
theorem renderPieces_branch {b : Branch Kind} (hb : b.Grows) (hall : ∀ n ∈ b.preorder, Regular n)
    {rest : Assembly Piece} (hrest : ∀ entries more, rest ≠ .nested entries :: more) :
    renderPieces (b.entries (piece · args) ++ rest) =
      evaluate args b >>= fun text => renderPieces rest >>= fun more => .ok (text ++ more) := by
  cases b with
  | node n branches =>
    cases hb with
    | node hheads hgrow =>
      obtain ⟨hn, hbelow⟩ := List.forall_mem_cons.1 hall
      have hrender : (piece n args).render _ = evaluate args (.node n branches) :=
        render_piece hn hheads rfl
      rw [Branch.entries]
      cases branches with
      | nil =>
        have hitem : renderPieces (.item (piece n args) :: rest) = _ := renderPieces_item hrest
        simp only [List.isEmpty_nil, if_true, List.cons_append, List.nil_append] at hrender ⊢
        rw [hitem, hrender]
      | cons b more =>
        -- the pieces of the children follow as a nested sequence
        have hinner := renderPieces_entries (b :: more) hgrow hbelow
        simp only [List.isEmpty_cons, Bool.false_eq_true, if_false, List.cons_append,
          List.nil_append] at hrender ⊢
        rw [renderPieces_nested, hinner, hrender]

/-- **The entries of branches render as the branches evaluate.** -/
theorem renderPieces_entries (branches : List (Branch Kind)) (hb : ∀ b ∈ branches, b.Grows)
    (hall : ∀ n ∈ Branch.preorder.preorders branches, Regular n) :
    renderPieces (Branch.entries.all (piece · args) branches) = evaluate.all args branches := by
  cases branches with
  | nil => rw [Branch.entries.all, renderPieces, evaluate.all]
  | cons b rest =>
    obtain ⟨hhead, hrest⟩ := List.forall_mem_cons.1 hb
    obtain ⟨hbranch, hbelow⟩ := List.forall_mem_append.1 hall
    rw [Branch.entries.all, renderPieces_branch hhead hbranch (entries_all_ne_nested rest),
      renderPieces_entries rest hrest hbelow, evaluate.all]

end

/-! ## What a template emits -/

/-- The constraints of a node are those of its kind, as long as none were set. -/
theorem constraints_eq {K : Type} {constraints : K → Option (Constraints K)} {tokens : TokenTree K}
    {n : Node K} (htree : n.tree = .ofTokens constraints tokens) (hn : n.Genuine) :
    n.constraints = constraints n.kind := by
  obtain ⟨-, -, htoken⟩ := NodeTree.node?_eq_some hn
  rw [htree] at htoken
  have htoken : tokens.tokens[n.id]? = some n.token := htoken
  simp only [Node.constraints, NodeTree.constraints, htree, NodeTree.ofTokens, Array.getElem?_map,
    htoken, Option.map_some, Option.bind_some]
  rfl

/-- A node with mandatory kinds and nothing below it does not pass its check. -/
theorem check_ne_ok {K : Type} [DecidableEq K] [Taxonomy K] {c : Constraints K} {n : Node K}
    (hbelow : n.below = []) (hmandatory : c.mandatoryKinds ≠ []) : (c.check n).value ≠ .ok () := by
  have hempty : c.mandatoryKinds.isEmpty = false := by
    cases hm : c.mandatoryKinds with
    | nil => exact absurd hm hmandatory
    | cons k rest => rfl
  simp [Constraints.check, hbelow, Constraints.checkFrom, hempty]

/-- A node that was made passed the grammar and added its piece. -/
theorem of_make_eq_ok {c : Compilation Kind Piece} (hc : c.grammar = grammar) {n : Node Kind}
    {scope made : Assembly Piece} (h : c.make n scope = .ok made) :
    (isAllowed n).value = .ok true ∧ made = scope.push (piece n c.arguments) := by
  have hmake : (grammar.make n c.arguments scope).value = .ok made := hc ▸ h
  simp only [Grammar.make, Look.value_bind] at hmake
  have hallowed : (grammar.isAllowed n).value = (isAllowed n).value := rfl
  rw [hallowed] at hmake
  cases hv : (isAllowed n).value with
  | error e => rw [hv] at hmake; cases hmake
  | ok allowed =>
    rw [hv] at hmake
    cases allowed with
    | false => cases hmake
    | true => cases hmake; exact ⟨rfl, rfl⟩

/-- A node that is allowed passes its own constraints. -/
theorem check_of_allowed {n : Node Kind} (h : (isAllowed n).value = .ok true) :
    n.check.value = .ok () := by
  simp only [isAllowed, Look.value_bind] at h
  cases hv : n.check.value with
  | error e => rw [hv] at h; cases h
  | ok u => rfl

/-- The rules of the language open variables, filters and optional sections. -/
theorem kind_of_mem_rules {rule : Rule Kind} (h : rule ∈ rules.rules) :
    rule.kind = .var ∨ rule.kind = .filter ∨ rule.kind = .optional := by
  rcases List.mem_cons.1 h with rfl | h
  · exact .inl rfl
  · rcases List.mem_cons.1 h with rfl | h
    · exact .inr (.inl rfl)
    · obtain rfl := List.mem_singleton.1 h
      exact .inr (.inr rfl)

/-- **A node that is allowed is regular.** -/
theorem regular_of_allowed {tokens : TokenTree Kind} {o : Outline Kind}
    (hd : tokens.Drawn rules o) {n : Node Kind} (htree : n.tree = .ofTokens constraints tokens)
    (hparsed : n.tree.Parsed) (hn : n.Genuine) (hgroup : n.isGroup = false)
    (hallowed : (isAllowed n).value = .ok true) : Regular n := by
  have hcheck := check_of_allowed hallowed
  simp only [isAllowed, Look.value_bind, hcheck] at hallowed
  refine ⟨?_, ?_, ?_, ?_⟩
  · obtain ⟨-, -, htoken⟩ := NodeTree.node?_eq_some hn
    rw [htree] at htoken
    rcases hd.kind_eq htoken hgroup with hk | ⟨rule, hrule, hk⟩
    · exact .inl hk
    · have hkind := kind_of_mem_rules hrule
      rw [← hk] at hkind
      exact .inr hkind
  · intro hk
    simp only [hk] at hallowed
    have hids : n.tree.childIds n.id = [] := by simpa [Node.hasChildren] using hallowed
    rw [Node.children, hids]
    rfl
  · intro hk
    simp only [hk] at hallowed
    simpa using hallowed
  · intro hk hnil
    -- a variable is mandatory in the section, so something is below it
    have hconstraints := constraints_eq htree hn
    rw [hk, constraints] at hconstraints
    rw [Node.check, hconstraints] at hcheck
    exact check_ne_ok (hparsed.below_eq_nil hn hnil) (by decide) hcheck

/-! ## Rendering a template -/

/-- The compilation of the tokens of a template. -/
def compilation (tokens : TokenTree Kind) (args : List (String × String)) :
    Compilation Kind Piece := ⟨grammar, .ofTokens constraints tokens, [], .ofList args⟩

/-- A template that compiles was scanned, and its tree was compiled with the
arguments. -/
theorem of_compile_eq_ok {source : String} {args : List (String × String)} {out : Assembly Piece}
    (h : compile source args = .ok out) :
    ∃ tokens, TokenTree.scan rules .default source.toList = .ok tokens ∧
      (compilation tokens args).run = .ok out := by
  have hread : grammar.read .default source.toList =
      (TokenTree.scan rules .default source.toList).map (.ofTokens constraints) := rfl
  simp only [compile, hread] at h
  cases hscan : TokenTree.scan rules .default source.toList with
  | error e => rw [hscan] at h; cases h
  | ok tokens =>
    rw [hscan] at h
    have hrun : (compilation tokens args).run.mapError Failure.engine = .ok out := h
    cases hv : (compilation tokens args).run with
    | error e => rw [hv] at hrun; cases hrun
    | ok result => rw [hv] at hrun; cases hrun; exact ⟨tokens, rfl, hv⟩

/-- Siblings that are one node evaluate as the node. -/
theorem evaluate_all_singleton (b : Branch Kind) : evaluate.all args [b] = evaluate args b := by
  rw [evaluate.all, evaluate.all]
  cases evaluate args b with
  | error e => rfl
  | ok text => exact congrArg Except.ok String.append_empty

theorem evaluate_all_tops (b : Branch Kind) : evaluate.all args b.tops =
    if b.head.isGroup then evaluate.all args b.branches else evaluate args b := by
  unfold Branch.tops
  cases b.head.isGroup with
  | true => rfl
  | false => exact evaluate_all_singleton b

/-- **A template that compiles renders as its tree evaluates.** The tree is that of the
source alone, so the values of arguments are not scanned. Each node that the template
emits is regular, and the text is that of the root, or of its children in order if the
root is a group. -/
theorem render_evaluates {source : String} {args : List (String × String)}
    {out : Assembly Piece} (h : compile source args = .ok out) :
    ∃ tree b, grammar.read .default source.toList = .ok tree ∧ b.Grows ∧ b.head = tree.root ∧
      (∀ n ∈ tree.emitted, Regular n) ∧
      renderPieces out = (if tree.root.isGroup then evaluate.all (.ofList args) b.branches
        else evaluate (.ofList args) b) := by
  obtain ⟨tokens, hscan, hrun⟩ := of_compile_eq_ok h
  have hread : grammar.read .default source.toList = .ok (compilation tokens args).tree := by
    rw [Grammar.read]
    exact congrArg _ hscan
  have hparsed : (compilation tokens args).tree.Parsed := .scan constraints hscan
  obtain ⟨-, o, hd⟩ := TokenTree.scan_drawn hscan
  obtain ⟨b, hb, hroot, hsize⟩ := hparsed.exists_branch
  have hvisit : Branch.visit.all (compilation tokens args).make b.tops [] = .ok out :=
    (Compilation.run_eq_tops hb hroot hsize).symm.trans hrun
  have hattempted : Branch.Attempted (compilation tokens args).make
      (Branch.calls.all (compilation tokens args).make b.tops [])
      (Branch.preorder.preorders b.tops) (.ok out) := hvisit ▸ Branch.visit.attempted_all b.tops []
  obtain ⟨hnodes, hmade⟩ := hattempted.of_ok
  have hregular : ∀ n ∈ Branch.preorder.preorders b.tops, Regular n := by
    intro n hn
    obtain ⟨htree, hgenuine, hgroup⟩ := hparsed.of_mem_preorders hb hroot n hn
    rw [hnodes] at hn
    obtain ⟨call, hcall, rfl⟩ := List.mem_map.1 hn
    obtain ⟨made, hmake⟩ := hmade call hcall
    have hallowed := (of_make_eq_ok rfl hmake).1
    exact regular_of_allowed hd htree (htree ▸ hparsed) hgenuine hgroup hallowed
  have hgrows : ∀ top ∈ b.tops, top.Grows := fun top htop =>
    (hparsed.of_mem_tops hb hroot top htop).1
  have hpush : ∀ n scope made, (compilation tokens args).make n scope = .ok made →
      made = scope.push (piece n (.ofList args)) :=
    fun n scope made hmake => (of_make_eq_ok rfl hmake).2
  have hout := Branch.visit_all_eq_append hpush b.tops hvisit
  refine ⟨_, b, hread, hb, hroot, ?_, ?_⟩
  · rw [hparsed.emitted_eq_preorder hb hroot hsize]
    exact hregular
  · rw [hout, List.nil_append, renderPieces_entries b.tops hgrows hregular, evaluate_all_tops, hroot]

/-- A template with a variable in a filter. -/
def shout : String := "\x7b#upper \x7b\x7by\x7d\x7d#\x7d"

theorem render_evaluates_shout : ∃ out, compile shout [("y", "\x7b\x7bx\x7d\x7d")] = .ok out ∧
    ∃ tree b, grammar.read .default shout.toList = .ok tree ∧ b.Grows ∧ b.head = tree.root ∧
      (∀ n ∈ tree.emitted, Regular n) ∧
      renderPieces out =
        (if tree.root.isGroup then evaluate.all (.ofList [("y", "\x7b\x7bx\x7d\x7d")]) b.branches
          else evaluate (.ofList [("y", "\x7b\x7bx\x7d\x7d")]) b) := by
  obtain ⟨out, hout, -⟩ := TokenTree.exists_ok_of_any
    (x := compile shout [("y", "\x7b\x7bx\x7d\x7d")]) (p := fun _ => true) (by cbv)
  exact ⟨out, hout, render_evaluates hout⟩

end Template

end Bracketry
