import Bracketry.Compilation
import Bracketry.Proofs.Branches

/-!
# A compilation visits the tree recursively

A compilation keeps a stack of levels and a stack of scopes. What it computes is a
recursion: a visit of a node makes the node, visits its children into an empty
scope of their own, and attaches that scope after what the node made.

* `Compilation.emitPending_branches`: the walk over some siblings is a visit of
  their branches, whatever is pending around them.
* `Branch.visit.attempted_all`: a visit makes nodes in pre-order up to the first
  that fails.
* `compilation_visits`: **a compilation of a parsed tree is the visit of its root,**
  or of the root's children if the root is a group.
-/

namespace Bracketry

variable {K I : Type}

namespace Branch

/-- Makes a node and visits its branches into a scope of their own, which is
attached after what the node made. -/
def visit (make : Node K → Assembly I → Except Error (Assembly I)) :
    Branch K → Assembly I → Except Error (Assembly I)
  | .node head branches, scope => do
    let scope ← make head scope
    if branches.isEmpty then .ok scope
    else
      let inner ← all make branches []
      .ok (scope.pushNested inner)
where
  /-- Visits branches in order into one scope. -/
  all (make : Node K → Assembly I → Except Error (Assembly I)) :
      List (Branch K) → Assembly I → Except Error (Assembly I)
    | [], scope => .ok scope
    | b :: rest, scope => do
      let scope ← b.visit make scope
      all make rest scope

/-- The nodes that a visit makes, each with the scope that it is made into. -/
def calls (make : Node K → Assembly I → Except Error (Assembly I)) :
    Branch K → Assembly I → List (Node K × Assembly I)
  | .node head branches, scope =>
    (head, scope) :: match make head scope with
      | .error _ => []
      | .ok _ => all make branches []
where
  /-- The nodes that visits in a row make. -/
  all (make : Node K → Assembly I → Except Error (Assembly I)) :
      List (Branch K) → Assembly I → List (Node K × Assembly I)
    | [], _ => []
    | b :: rest, scope =>
      b.calls make scope ++ match b.visit make scope with
        | .error _ => []
        | .ok scope => all make rest scope

/-- What a compilation visits on the outermost level: the branches of a group at
the root, else the root. -/
def tops (b : Branch K) : List (Branch K) := if b.head.isGroup then b.branches else [b]

theorem visit.all_eq_foldlM (make : Node K → Assembly I → Except Error (Assembly I))
    (branches : List (Branch K)) (scope : Assembly I) :
    all make branches scope = branches.foldlM (fun scope b => b.visit make scope) scope := by
  induction branches generalizing scope with
  | nil => rfl
  | cons b rest ih =>
    rw [all, List.foldlM_cons]
    cases b.visit make scope with
    | error e => rfl
    | ok scope => exact ih scope

/-! ## The first failure -/

/-- Of some nodes in order all were made, or those before the first that fails, and
its error is the result. -/
inductive Attempted (make : Node K → Assembly I → Except Error (Assembly I)) :
    List (Node K × Assembly I) → List (Node K) → Except Error (Assembly I) → Prop
  | ok {calls : List (Node K × Assembly I)} {result : Assembly I} :
      (∀ p ∈ calls, ∃ made, make p.1 p.2 = .ok made) →
      Attempted make calls (calls.map Prod.fst) (.ok result)
  | error {before : List (Node K × Assembly I)} {n : Node K} {scope : Assembly I}
      {after : List (Node K)} {e : Error} :
      (∀ p ∈ before, ∃ made, make p.1 p.2 = .ok made) → make n scope = .error e →
      Attempted make (before ++ [(n, scope)]) (before.map Prod.fst ++ n :: after) (.error e)

variable {make : Node K → Assembly I → Except Error (Assembly I)}

theorem Attempted.of_ok {calls : List (Node K × Assembly I)} {nodes : List (Node K)}
    {result : Assembly I} (h : Attempted make calls nodes (.ok result)) :
    nodes = calls.map Prod.fst ∧ ∀ p ∈ calls, ∃ made, make p.1 p.2 = .ok made := by
  cases h with
  | ok hcalls => exact ⟨rfl, hcalls⟩

/-- It does not matter what becomes of the result. -/
theorem Attempted.map {calls : List (Node K × Assembly I)} {nodes : List (Node K)}
    {result : Except Error (Assembly I)} (h : Attempted make calls nodes result)
    (f : Assembly I → Assembly I) : Attempted make calls nodes (result.map f) := by
  cases h with
  | ok hcalls => exact .ok hcalls
  | error hcalls he => exact .error hcalls he

/-- Nodes that were made may be put in front. -/
theorem Attempted.prepend {before calls : List (Node K × Assembly I)} {nodes : List (Node K)}
    {result : Except Error (Assembly I)} (hbefore : ∀ p ∈ before, ∃ made, make p.1 p.2 = .ok made)
    (h : Attempted make calls nodes result) :
    Attempted make (before ++ calls) (before.map Prod.fst ++ nodes) result := by
  cases h with
  | ok hcalls =>
    rw [← List.map_append]
    exact .ok (List.forall_mem_append.2 ⟨hbefore, hcalls⟩)
  | error hcalls he =>
    rw [← List.append_assoc, ← List.append_assoc, ← List.map_append]
    exact .error (List.forall_mem_append.2 ⟨hbefore, hcalls⟩) he

/-- After a failure nothing more is made. -/
theorem Attempted.append {calls : List (Node K × Assembly I)} {nodes : List (Node K)} {e : Error}
    (h : Attempted make calls nodes (.error e)) (more : List (Node K)) :
    Attempted make calls (nodes ++ more) (.error e) := by
  cases h with
  | error hcalls he =>
    rw [List.append_assoc, List.cons_append]
    exact .error hcalls he

mutual

/-- A visit makes the nodes of its branch in pre-order, up to the first that fails. -/
theorem visit.attempted (b : Branch K) (scope : Assembly I) :
    Attempted make (b.calls make scope) b.preorder (b.visit make scope) := by
  cases b with
  | node head branches =>
    simp only [calls, preorder, visit]
    cases hmake : make head scope with
    | error e => exact .error (fun p hp => absurd hp List.not_mem_nil) hmake
    | ok made =>
      have hhead : ∀ p ∈ [(head, scope)], ∃ made, make p.1 p.2 = .ok made := by
        intro p hp
        obtain rfl := List.mem_singleton.1 hp
        exact ⟨made, hmake⟩
      have hall := (visit.attempted_all branches []).prepend hhead
      cases branches with
      | nil => exact hall.map fun _ => made
      | cons b rest => exact hall.map fun inner => made.pushNested inner

/-- **Visits in a row make nodes in pre-order, up to the first that fails.** -/
theorem visit.attempted_all (branches : List (Branch K)) (scope : Assembly I) :
    Attempted make (calls.all make branches scope) (preorder.preorders branches)
      (visit.all make branches scope) := by
  cases branches with
  | nil => exact .ok fun p hp => absurd hp List.not_mem_nil
  | cons b rest =>
    have hb := visit.attempted b scope
    simp only [calls.all, preorder.preorders, visit.all]
    cases hv : b.visit make scope with
    | error e =>
      -- the nodes of the other branches are not reached
      rw [hv] at hb
      simp only [List.append_nil]
      exact hb.append _
    | ok inner =>
      rw [hv] at hb
      obtain ⟨hnodes, hcalls⟩ := hb.of_ok
      rw [hnodes]
      exact (visit.attempted_all rest inner).prepend hcalls

end

end Branch

/-! ## Scopes -/

namespace Scopes

variable {scopes : Scopes I} {a b : Assembly I}

theorem current_setCurrent : (scopes.setCurrent a).current = a := by
  unfold setCurrent current
  cases scopes.opened <;> rfl

theorem setCurrent_setCurrent : (scopes.setCurrent a).setCurrent b = scopes.setCurrent b := by
  obtain ⟨root, opened⟩ := scopes
  cases opened <;> rfl

theorem setCurrent_current : scopes.setCurrent scopes.current = scopes := by
  obtain ⟨root, opened⟩ := scopes
  cases opened <;> rfl

theorem current_enter : scopes.enter.current = [] := rfl

/-- A scope that was opened and filled is attached to the one around it. -/
theorem leave_enter : (scopes.enter.setCurrent a).leave =
    scopes.setCurrent (scopes.current.pushNested a) := rfl

end Scopes

/-! ## The walk -/

namespace Compilation

variable [DecidableEq K] [Taxonomy K]

/-- Makes a node of the tree into a scope. -/
def make (c : Compilation K I) (n : Node K) (scope : Assembly I) : Except Error (Assembly I) :=
  (c.grammar.make n c.arguments scope).value

variable {c : Compilation K I}

theorem emit_eq (n : Node K) (scopes : Scopes I) :
    c.emit n scopes = (c.make n scopes.current).map scopes.setCurrent := rfl

mutual

/-- The walk over a node and what is below it is the visit of its branch. -/
theorem emitPending_branch {b : Branch K} (hb : b.Grows) (m : Nat) (scopes : Scopes I)
    (siblings : List (Node K)) (ownScope : Bool) (outer : List (Pending K)) :
    c.emitPending (b.size + m) scopes (⟨b.head :: siblings, ownScope⟩ :: outer) =
      (b.visit c.make scopes.current >>= fun a =>
        c.emitPending m (scopes.setCurrent a) (⟨siblings, ownScope⟩ :: outer)) := by
  cases b with
  | node head branches =>
    cases hb with
    | node hheads hgrow =>
      have hsize : (Branch.node head branches).size + m =
          Branch.size.sizes branches + m + 1 := by simp only [Branch.size]; omega
      rw [hsize, Branch.head, emitPending, emit_eq, Branch.visit]
      cases c.make head scopes.current with
      | error e => rfl
      | ok made =>
        simp only [bind, Except.bind, Except.map, ← hheads]
        cases branches with
        | nil => simp [Branch.size.sizes]
        | cons b rest =>
          -- the children are walked in a scope of their own, which is left after them
          have hinner := emitPending_branches (b :: rest) hgrow m (scopes.setCurrent made).enter []
            true (⟨siblings, ownScope⟩ :: outer)
          rw [List.append_nil, Scopes.current_enter] at hinner
          simp only [List.map_cons, List.isEmpty_cons, Bool.false_eq_true, if_false] at hinner ⊢
          rw [hinner]
          cases Branch.visit.all c.make (b :: rest) [] with
          | error e => rfl
          | ok inner =>
            simp only [bind, Except.bind]
            rw [emitPending, if_pos rfl, Scopes.leave_enter, Scopes.current_setCurrent,
              Scopes.setCurrent_setCurrent]

/-- **The walk over some siblings is the visit of their branches,** whatever is
pending after them and around them. -/
theorem emitPending_branches (branches : List (Branch K)) (h : ∀ b ∈ branches, b.Grows) (m : Nat)
    (scopes : Scopes I) (siblings : List (Node K)) (ownScope : Bool) (outer : List (Pending K)) :
    c.emitPending (Branch.size.sizes branches + m) scopes
        (⟨branches.map Branch.head ++ siblings, ownScope⟩ :: outer) =
      (Branch.visit.all c.make branches scopes.current >>= fun a =>
        c.emitPending m (scopes.setCurrent a) (⟨siblings, ownScope⟩ :: outer)) := by
  cases branches with
  | nil =>
    have hsize : Branch.size.sizes ([] : List (Branch K)) + m = m := by
      simp only [Branch.size.sizes]; omega
    rw [hsize, List.map_nil, List.nil_append, Branch.visit.all]
    exact (congrArg (c.emitPending m · _) Scopes.setCurrent_current).symm
  | cons b rest =>
    obtain ⟨hb, hrest⟩ := List.forall_mem_cons.1 h
    have hsize : Branch.size.sizes (b :: rest) + m = b.size + (Branch.size.sizes rest + m) := by
      simp only [Branch.size.sizes]; omega
    rw [hsize, List.map_cons, List.cons_append, emitPending_branch hb, Branch.visit.all]
    cases b.visit c.make scopes.current with
    | error e => rfl
    | ok a =>
      have hmore := emitPending_branches rest hrest m (scopes.setCurrent a) siblings ownScope outer
      simp only [Scopes.current_setCurrent, Scopes.setCurrent_setCurrent] at hmore
      exact hmore

end

/-- A walk over all siblings of the outermost level ends with their visit. -/
theorem emitPending_all {branches : List (Branch K)} (h : ∀ b ∈ branches, b.Grows) {n : Nat}
    (hn : Branch.size.sizes branches ≤ n) (output : Assembly I) :
    c.emitPending n (Scopes.start output) [⟨branches.map Branch.head, false⟩] =
      Branch.visit.all c.make branches output := by
  have hwalk := emitPending_branches (c := c) branches h (n - Branch.size.sizes branches)
    (Scopes.start output) [] false []
  rw [List.append_nil, Nat.add_sub_of_le hn] at hwalk
  rw [hwalk]
  have hcurrent : (Scopes.start output).current = output := rfl
  rw [hcurrent]
  cases Branch.visit.all c.make branches output with
  | error e => rfl
  | ok a =>
    simp only [bind, Except.bind]
    rw [emitPending, emitPending]
    rfl

/-- A compilation visits a root that is no group. -/
theorem run_eq_of_not_group {b : Branch K} (hb : b.Grows) (hroot : b.head = c.tree.root)
    (hsize : b.size ≤ c.tree.tokens.size) (hg : c.tree.root.isGroup = false) :
    c.run = b.visit c.make c.output := by
  cases hb with
  | @node head branches hheads hgrow =>
    obtain rfl : head = c.tree.root := hroot
    have hcurrent : (Scopes.start c.output).current = c.output := rfl
    rw [run, hg, emit_eq, hcurrent, Branch.visit, ← hheads]
    cases c.make c.tree.root c.output with
    | error e => rfl
    | ok made =>
      cases branches with
      | nil => rfl
      | cons b rest =>
        -- the walk has room for the children: the root counts too
        have hroom : Branch.size.sizes (b :: rest) ≤ c.tree.tokens.size := by
          simp only [Branch.size] at hsize
          omega
        have hinner := emitPending_branches (c := c) (b :: rest) hgrow
          (c.tree.tokens.size - Branch.size.sizes (b :: rest))
          ((Scopes.start c.output).setCurrent made).enter [] true []
        rw [List.append_nil, Nat.add_sub_of_le hroom, Scopes.current_enter] at hinner
        simp only [bind, Except.bind, Except.map, Bool.false_eq_true, if_false, List.map_cons,
          List.isEmpty_cons] at hinner ⊢
        rw [hinner]
        cases Branch.visit.all c.make (b :: rest) [] with
        | error e => rfl
        | ok inner =>
          simp only [emitPending, if_true, Scopes.leave_enter, Scopes.current_setCurrent,
            Scopes.setCurrent_setCurrent]
          rfl

/-- A compilation visits the children of a group at the root. -/
theorem run_eq_of_group {b : Branch K} (hb : b.Grows) (hroot : b.head = c.tree.root)
    (hsize : b.size ≤ c.tree.tokens.size) (hg : c.tree.root.isGroup = true) :
    c.run = Branch.visit.all c.make b.branches c.output := by
  cases hb with
  | @node head branches hheads hgrow =>
    obtain rfl : head = c.tree.root := hroot
    have hroom : Branch.size.sizes branches ≤ c.tree.tokens.size := by
      simp only [Branch.size] at hsize
      omega
    rw [run, hg, ← hheads]
    exact emitPending_all hgrow hroom c.output

theorem run_eq_tops {b : Branch K} (hb : b.Grows) (hroot : b.head = c.tree.root)
    (hsize : b.size ≤ c.tree.tokens.size) :
    c.run = Branch.visit.all c.make b.tops c.output := by
  unfold Branch.tops
  rw [hroot]
  cases hg : c.tree.root.isGroup with
  | true =>
    rw [if_pos rfl]
    exact run_eq_of_group hb hroot hsize hg
  | false =>
    rw [if_neg (by simp), run_eq_of_not_group hb hroot hsize hg, Branch.visit.all]
    cases b.visit c.make c.output <;> rfl

end Compilation

/-- **A compilation is a recursive visit.** The root of a parsed tree has exactly one
branch, and a compilation visits it, or folds the visits of the root's children over
the output if the root is a group. The nodes are made in pre-order, and the error is
that of the first that fails. -/
theorem compilation_visits [DecidableEq K] [Taxonomy K] (c : Compilation K I)
    (h : c.tree.Parsed) :
    ∃ b : Branch K, b.Grows ∧ b.head = c.tree.root ∧
      (∀ b' : Branch K, b'.Grows → b'.head = c.tree.root → b' = b) ∧
      c.run = (if c.tree.root.isGroup then
        b.branches.foldlM (fun scope b => b.visit c.make scope) c.output
        else b.visit c.make c.output) ∧
      Branch.Attempted c.make (Branch.calls.all c.make b.tops c.output)
        (Branch.preorder.preorders b.tops) c.run := by
  obtain ⟨b, hb, hroot, hsize⟩ := h.exists_branch
  refine ⟨b, hb, hroot, ?_, ?_, ?_⟩
  · intro b' hb' hroot'
    exact hb'.unique hb (hroot'.trans hroot.symm)
  · cases hg : c.tree.root.isGroup with
    | true =>
      rw [if_pos rfl, ← Branch.visit.all_eq_foldlM]
      exact Compilation.run_eq_of_group hb hroot hsize hg
    | false =>
      rw [if_neg (by simp)]
      exact Compilation.run_eq_of_not_group hb hroot hsize hg
  · rw [Compilation.run_eq_tops hb hroot hsize]
    exact Branch.visit.attempted_all b.tops c.output

theorem compilation_visits_sample : ∃ c : Compilation Template.Kind Template.Piece,
    c.tree.tokens.source = Template.sample ∧ c.tree.Parsed ∧
    ∃ b : Branch Template.Kind, b.Grows ∧ b.head = c.tree.root ∧
      (∀ b' : Branch Template.Kind, b'.Grows → b'.head = c.tree.root → b' = b) ∧
      c.run = (if c.tree.root.isGroup then
        b.branches.foldlM (fun scope b => b.visit c.make scope) c.output
        else b.visit c.make c.output) ∧
      Branch.Attempted c.make (Branch.calls.all c.make b.tops c.output)
        (Branch.preorder.preorders b.tops) c.run := by
  obtain ⟨t, ht, -⟩ := Template.scan_sample
  have hparsed : (NodeTree.ofTokens Template.constraints t).Parsed := .scan Template.constraints ht
  have hsource : t.source = Template.sample := (TokenTree.scan_drawn ht).1
  exact ⟨.start Template.grammar (.ofTokens Template.constraints t) [], hsource, hparsed,
    compilation_visits _ hparsed⟩

end Bracketry
