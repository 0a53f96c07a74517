import Bracketry.Proofs.Evaluation

/-!
# A compilation judges nodes and adds their items

Making a node is two things: the grammar judges the node, and then the node adds what it
emits. The verdict depends on the tree only. If each node adds one item, a compilation comes
apart in the same way: it judges the nodes in pre-order, and once all have passed, its output
is the entries of the branches.

* `Branch.visit_all_eq_judged`: **visits in a row judge their nodes in pre-order,** and then
  append the entries of the branches.
* `Template.compile_eq`: a template compiles to the first verdict against one of its nodes, or
  to the entries of its branches.
* `Template.compile_eq_ok_iff`: **a template compiles if it can be read and its nodes pass,**
  whatever the arguments.
-/

namespace Bracketry

variable {K I : Type}

/-! ## Verdicts -/

namespace Grammar

variable [DecidableEq K] [Taxonomy K]

/-- The verdict on a node: it may be emitted, or the error says why not. -/
def judge (g : Grammar K I) (n : Node K) : Except Error Unit :=
  match (g.isAllowed n).value with
  | .error e => .error e
  | .ok false => .error (.refused n.info (n.parent?.map Node.info))
  | .ok true => .ok ()

/-- A node is judged and then emitted. -/
theorem value_make (g : Grammar K I) (n : Node K) (args : Bindings) (out : Assembly I) :
    (g.make n args out).value = g.judge n >>= fun _ => (g.emit n args out).value := by
  simp only [make, judge, Look.value_bind]
  cases (g.isAllowed n).value with
  | error e => rfl
  | ok allowed => cases allowed <;> rfl

theorem judge_eq_ok_iff {g : Grammar K I} {n : Node K} :
    g.judge n = .ok () ↔ (g.isAllowed n).value = .ok true := by
  unfold judge
  cases (g.isAllowed n).value with
  | error e => simp
  | ok allowed => cases allowed <;> simp

end Grammar

/-! ## Visits -/

namespace Branch

variable {make : Node K → Assembly I → Except Error (Assembly I)} {item : Node K → I}
  {judge : Node K → Except Error Unit}

mutual

/-- A visit judges the nodes of its branch in pre-order, and then appends the entries of the
branch. -/
theorem visit_eq_judged
    (hmake : ∀ n scope, make n scope = judge n >>= fun _ => .ok (scope.push (item n)))
    (b : Branch K) (scope : Assembly I) :
    b.visit make scope =
      forM b.preorder judge >>= fun _ => .ok (scope ++ b.entries item) := by
  cases b with
  | node head branches =>
    rw [visit, hmake, preorder, List.forM_cons, entries]
    simp only [bind_assoc]
    refine bind_congr fun _ => ?_
    have hinner := visit_all_eq_judged hmake branches []
    cases branches with
    | nil => simp [bind, Except.bind, pure, Except.pure, Assembly.push, preorder.preorders]
    | cons b rest =>
      simp only [List.isEmpty_cons, Bool.false_eq_true, if_false]
      rw [hinner, List.nil_append]
      simp only [bind_assoc]
      simp [bind, Except.bind, Assembly.push, Assembly.pushNested]

/-- **Visits in a row judge their nodes in pre-order,** and then append the entries of the
branches. -/
theorem visit_all_eq_judged
    (hmake : ∀ n scope, make n scope = judge n >>= fun _ => .ok (scope.push (item n)))
    (branches : List (Branch K)) (scope : Assembly I) :
    visit.all make branches scope =
      forM (preorder.preorders branches) judge >>= fun _ =>
        .ok (scope ++ entries.all item branches) := by
  cases branches with
  | nil => simp [visit.all, preorder.preorders, entries.all, bind, Except.bind, pure, Except.pure]
  | cons b rest =>
    rw [visit.all, visit_eq_judged hmake b, preorder.preorders, List.forM_append, entries.all]
    simp only [bind_assoc]
    refine bind_congr fun _ => ?_
    have hrest := visit_all_eq_judged hmake rest (scope ++ b.entries item)
    rw [List.append_assoc] at hrest
    exact hrest

end

end Branch

/-! ## Templates -/

namespace Template

theorem make_eq_judged (c : Compilation Kind Piece) (hc : c.grammar = grammar) (n : Node Kind)
    (scope : Assembly Piece) :
    c.make n scope = grammar.judge n >>= fun _ => .ok (scope.push (piece n c.arguments)) := by
  rw [Compilation.make, hc, Grammar.value_make]
  rfl

/-- A template that cannot be read does not compile. -/
theorem compile_eq_error {source : String} {e : Error}
    (h : grammar.read .default source.toList = .error e) (args : List (String × String)) :
    compile source args = .error (.engine e) := by
  rw [compile, h]
  rfl

/-- A template that was read has the tree of its tokens. -/
theorem of_read_eq_ok {source : String} {tree : NodeTree Kind}
    (h : grammar.read .default source.toList = .ok tree) :
    ∃ tokens, TokenTree.scan rules .default source.toList = .ok tokens ∧
      tree = .ofTokens constraints tokens := by
  have hread : grammar.read .default source.toList =
      (TokenTree.scan rules .default source.toList).map (.ofTokens constraints) := rfl
  rw [hread] at h
  cases hscan : TokenTree.scan rules .default source.toList with
  | error e => rw [hscan] at h; cases h
  | ok tokens => rw [hscan] at h; cases h; exact ⟨tokens, rfl, rfl⟩

theorem parsed_of_read {source : String} {tree : NodeTree Kind}
    (h : grammar.read .default source.toList = .ok tree) : tree.Parsed := by
  obtain ⟨tokens, hscan, rfl⟩ := of_read_eq_ok h
  exact .scan constraints hscan

theorem drawn_of_read {source : String} {tree : NodeTree Kind}
    (h : grammar.read .default source.toList = .ok tree) : ∃ o, tree.tokens.Drawn rules o := by
  obtain ⟨tokens, hscan, rfl⟩ := of_read_eq_ok h
  obtain ⟨-, o, hd⟩ := TokenTree.scan_drawn hscan
  exact ⟨o, hd⟩

/-- What the nodes of a template emit, given the arguments. -/
def output (b : Branch Kind) (args : List (String × String)) : Assembly Piece :=
  Branch.entries.all (piece · (.ofList args)) b.tops

/-- **A template compiles to the first verdict against one of its nodes,** or else to what its
nodes emit. -/
theorem compile_eq {source : String} {tree : NodeTree Kind} {b : Branch Kind}
    (h : grammar.read .default source.toList = .ok tree) (hb : b.Grows) (hroot : b.head = tree.root)
    (args : List (String × String)) :
    compile source args =
      (forM tree.emitted grammar.judge >>= fun _ => .ok (output b args)).mapError .engine := by
  have hparsed := parsed_of_read h
  obtain ⟨tokens, -, rfl⟩ := of_read_eq_ok h
  obtain ⟨b', hb', hroot', hsize⟩ := hparsed.exists_branch
  obtain rfl := hb.unique hb' (hroot.trans hroot'.symm)
  have hrun : (compilation tokens args).run =
      Branch.visit.all (compilation tokens args).make b.tops [] :=
    Compilation.run_eq_tops hb hroot hsize
  have hjudged := Branch.visit_all_eq_judged (make_eq_judged (compilation tokens args) rfl) b.tops []
  have hcompile : compile source args = (compilation tokens args).run.mapError .engine := by
    rw [compile, h]
    rfl
  rw [hcompile, hrun, hjudged, hparsed.emitted_eq_preorder hb hroot hsize, List.nil_append]
  rfl

/-- **A template compiles if it can be read and its nodes pass,** whatever the arguments. What
it compiles to is what its nodes emit. -/
theorem compile_eq_ok_iff {source : String} {args : List (String × String)} {out : Assembly Piece} :
    compile source args = .ok out ↔ ∃ (tree : NodeTree Kind) (b : Branch Kind),
      grammar.read .default source.toList = .ok tree ∧ b.Grows ∧ b.head = tree.root ∧
        (∀ n ∈ tree.emitted, grammar.judge n = .ok ()) ∧ out = output b args := by
  constructor
  · intro h
    cases hread : grammar.read .default source.toList with
    | error e =>
      rw [compile_eq_error hread] at h
      cases h
    | ok tree =>
      obtain ⟨b, hb, hroot, -⟩ := (parsed_of_read hread).exists_branch
      rw [compile_eq hread hb hroot] at h
      cases hjudge : forM tree.emitted grammar.judge with
      | error e =>
        rw [hjudge] at h
        cases h
      | ok _ =>
        rw [hjudge] at h
        cases h
        exact ⟨tree, b, rfl, hb, hroot, forM_eq_ok_iff.1 hjudge, rfl⟩
  · rintro ⟨tree, b, hread, hb, hroot, hjudge, rfl⟩
    rw [compile_eq hread hb hroot, forM_eq_ok_iff.2 hjudge]
    rfl

end Template

end Bracketry
