import Bracketry.Grammar
import Bracketry.Proofs.Descendants
import Bracketry.Proofs.Queries

/-!
# What the queries of the engine answer

On a parsed tree the queries of the engine answer as its nodes do, with a bound of as many steps as
there are tokens. Those about structure ask for kinds and children only, and all of them ask for
numbers of tokens only.

* `Query.on_descendants`, `Query.on_ancestors`, `Query.on_find`, `Query.on_findAncestor`: the
  structure of a parsed tree, as its nodes have it.
* `Query.on_check`: the check of a strict node.
* `Query.on_make`: what a grammar makes of a node, with any code of its own.
-/

namespace Bracketry

variable {K : Type}

namespace Query

/-! ## What is structural -/

theorem structural_childIds (id : Nat) : (childIds id : Query K (List Nat)).Structural :=
  fun _ => trivial

theorem structural_hasChildren (id : Nat) : (hasChildren id : Query K Bool).Structural :=
  fun _ => trivial

theorem structural_descend (m : Nat) (stack : List (List Nat)) :
    (descend m stack : Query K (List Nat)).Structural := by
  induction m generalizing stack with
  | zero => trivial
  | succ m ih =>
    unfold descend
    cases NodeTree.next? stack with
    | none => trivial
    | some top => exact fun ids => (ih _).map _

theorem structural_descendants (bound id : Nat) :
    (descendants bound id : Query K (List Nat)).Structural :=
  fun _ => structural_descend bound _

theorem structural_sift {σ β : Type} (judge : σ → Nat → K → β ⊕ σ) (finish : σ → β) (m : Nat) (s : σ)
    (stack : List (List Nat)) : (sift judge finish m s stack).Structural := by
  induction m generalizing s stack with
  | zero => trivial
  | succ m ih =>
    unfold sift
    cases NodeTree.next? stack with
    | none => trivial
    | some top =>
      refine fun ids => ⟨fun made made' hkind => ?_, fun made => ?_⟩
      · simp only [hkind]
      · dsimp only
        cases judge s top.1 made.kind with
        | inl result => trivial
        | inr s => exact ih _ _

theorem structural_find (test : K → Bool) (bound id : Nat) : (find test bound id).Structural := by
  refine ⟨fun made made' hkind => ?_, fun made => ?_⟩
  · simp only [hkind]
  · dsimp only
    split
    · trivial
    · exact fun ids => structural_sift _ _ _ _ _

theorem structural_climb (m : Nat) (next : Option Nat) :
    (climb m next : Query K (List Nat)).Structural := by
  induction m generalizing next with
  | zero => trivial
  | succ m ih =>
    cases next with
    | none => trivial
    | some id => exact fun token => (ih _).map _

theorem structural_ancestors (bound id : Nat) :
    (ancestors bound id : Query K (List Nat)).Structural :=
  fun _ => structural_climb bound _

theorem structural_depth (bound id : Nat) : (depth bound id : Query K Nat).Structural :=
  (structural_ancestors bound id).map _

theorem structural_rise (test : K → Bool) (m skip : Nat) (next : Option Nat) :
    (rise test m skip next).Structural := by
  induction m generalizing skip next with
  | zero => trivial
  | succ m ih =>
    cases next with
    | none => trivial
    | some id =>
      cases skip with
      | succ skip => exact fun token => ih _ _
      | zero =>
        refine fun token => ⟨fun made made' hkind => ?_, fun made => ?_⟩
        · simp only [hkind]
        · dsimp only
          split
          · trivial
          · exact ih _ _

theorem structural_findAncestor (test : K → Bool) (skip bound id : Nat) :
    (findAncestor test skip bound id).Structural :=
  fun _ => structural_rise test bound skip _

/-! ## What the stack holds -/

/-- The number and the kind of a node. -/
def label (n : Node K) : Nat × K := (n.id, n.kind)

/-- The numbers and the kinds of the nodes of some numbers. -/
def labels (tokens : TokenTree K) (ids : List Nat) : List (Nat × K) :=
  ids.filterMap fun id => tokens.tokens[id]?.map fun token => (id, token.kind)

/-- All numbers on a stack are those of tokens. -/
def Known (tokens : TokenTree K) (stack : List (List Nat)) : Prop :=
  ∀ siblings ∈ stack, ∀ id ∈ siblings, id < tokens.size

theorem Known.next {tokens : TokenTree K} {stack rest : List (List Nat)} {id : Nat}
    (h : Known tokens stack) (hnext : NodeTree.next? stack = some (id, rest)) :
    id < tokens.size ∧ Known tokens rest := by
  induction stack using NodeTree.next?.induct with
  | case1 => cases hnext
  | case2 outer ih => exact ih (fun s hs => h s (List.mem_cons_of_mem _ hs)) hnext
  | case3 outer top siblings =>
    obtain ⟨hsiblings, houter⟩ := List.forall_mem_cons.1 h
    obtain ⟨htop, hrest⟩ := List.forall_mem_cons.1 hsiblings
    cases hnext
    exact ⟨htop, List.forall_mem_cons.2 ⟨hrest, houter⟩⟩

/-- A step of a visit takes a number that has a token, and the stack that it leaves is known. -/
theorem Known.step {tokens : TokenTree K} {stack rest : List (List Nat)} {id : Nat}
    (h : Known tokens stack) (hclosed : tokens.Closed)
    (hnext : NodeTree.next? stack = some (id, rest)) :
    ∃ token, tokens.tokens[id]? = some token ∧
      Known tokens (if (NodeTree.project tokens id).isEmpty then rest
        else NodeTree.project tokens id :: rest) := by
  obtain ⟨hid, hrest⟩ := h.next hnext
  obtain ⟨token, htoken⟩ := TokenTree.exists_token hid
  refine ⟨token, htoken, ?_⟩
  split
  · exact hrest
  · exact List.forall_mem_cons.2 ⟨hclosed.child id, hrest⟩

theorem known_children {tokens : TokenTree K} (hclosed : tokens.Closed) (id : Nat) :
    Known tokens [NodeTree.project tokens id] := by
  intro siblings hsiblings
  obtain rfl := List.mem_singleton.1 hsiblings
  exact hclosed.child id

theorem labels_cons {tokens : TokenTree K} {id : Nat} {token : Token K}
    (h : tokens.tokens[id]? = some token) (ids : List Nat) :
    labels tokens (id :: ids) = (id, token.kind) :: labels tokens ids := by
  unfold labels
  rw [List.filterMap_cons_some]
  rw [h]
  rfl

/-- The nodes of a tree are known by number and kind. -/
theorem labels_map_id {t : NodeTree K} {nodes : List (Node K)} (h : ∀ n ∈ nodes, t.Has n) :
    labels t.tokens (nodes.map Node.id) = nodes.map label := by
  induction nodes with
  | nil => rfl
  | cons n rest ih =>
    obtain ⟨hn, hrest⟩ := List.forall_mem_cons.1 h
    rw [List.map_cons, labels_cons (NodeTree.node?_eq_some hn).2.2, ih hrest]
    rfl

/-- The nodes of some numbers are those of the tree. -/
theorem has_of_mem_filterMap {t : NodeTree K} {ids : List Nat} {n : Node K}
    (h : n ∈ ids.filterMap t.node?) : t.Has n := by
  obtain ⟨id, -, hn⟩ := List.mem_filterMap.1 h
  obtain ⟨-, rfl, -⟩ := NodeTree.node?_eq_some hn
  exact hn

/-- The nodes of numbers that are in use have these numbers. -/
theorem map_id_filterMap {t : NodeTree K} {ids : List Nat} (h : ∀ id ∈ ids, id < t.tokens.size) :
    (ids.filterMap t.node?).map Node.id = ids := by
  induction ids with
  | nil => rfl
  | cons id ids ih =>
    obtain ⟨hid, hids⟩ := List.forall_mem_cons.1 h
    obtain ⟨token, htoken⟩ := TokenTree.exists_token hid
    rw [List.filterMap_cons_some (NodeTree.node?_of_token htoken), List.map_cons, ih hids]

/-! ## Going down -/

/-- A loop over nodes that are known by number and kind. -/
def siftList {σ β : Type} (judge : σ → Nat → K → β ⊕ σ) (finish : σ → β) :
    σ → List (Nat × K) → Look β
  | s, [] => pure (finish s)
  | s, (id, kind) :: rest => do
    Look.ask id
    match judge s id kind with
    | .inl result => pure result
    | .inr s => siftList judge finish s rest

theorem findIn_eq (test : K → Bool) (nodes : List (Node K)) :
    (Node.findIn (fun m => test m.kind) nodes).map (Option.map Node.id) =
      siftList (pick test) (fun _ => none) () (nodes.map label) := by
  induction nodes with
  | nil => rfl
  | cons m rest ih =>
    rw [List.map_cons, Node.findIn, label, siftList, pick]
    by_cases htest : test m.kind
    · simp only [if_pos htest]
      rfl
    · simp only [if_neg htest]
      rw [← ih]
      rfl

section

variable {n : Node K}

theorem made?_of_genuine (hn : n.Genuine) : n.tree.made? n.id =
    some ⟨n.kind, n.constraints, n.tree.computed n.id⟩ :=
  NodeTree.made?_of_token (NodeTree.node?_eq_some hn).2.2

theorem on_childIds (hn : n.Genuine) : (childIds n.id).on n.tree = n.childIds.map some := by
  simp only [childIds, on, made?_of_genuine hn]
  rfl

theorem on_hasChildren (hn : n.Genuine) :
    (hasChildren n.id).on n.tree = n.hasChildren.map some := by
  simp only [hasChildren, on, made?_of_genuine hn]
  rfl

theorem on_constraints {t : NodeTree K} {id : Nat} {made : MadeNode K}
    (hmade : t.made? id = some made) : (constraints id).on t = ⟨some made.constraints, []⟩ := by
  simp only [constraints, on, hmade]
  rfl

end

section

variable [DecidableEq K] [Taxonomy K] {t : NodeTree K} {n : Node K}

theorem on_descend (h : t.Parsed) (m : Nat) {stack : List (List Nat)}
    (hstack : Known t.tokens stack) :
    (descend m stack).on t =
      ⟨some (NodeTree.visit (NodeTree.project t.tokens) m stack),
        NodeTree.visit (NodeTree.project t.tokens) m stack⟩ := by
  induction m generalizing t stack with
  | zero => rfl
  | succ m ih =>
    unfold descend NodeTree.visit
    cases hnext : NodeTree.next? stack with
    | none => rfl
    | some top =>
      obtain ⟨id, rest⟩ := top
      obtain ⟨token, htoken, hpush⟩ := hstack.step h.closed hnext
      simp only [on, NodeTree.made?_of_token htoken, h.childIds_eq]
      rw [on_map, ih (h.keep id) hpush]
      rfl

theorem on_sift {σ β : Type} (judge : σ → Nat → K → β ⊕ σ) (finish : σ → β) (h : t.Parsed)
    (m : Nat) (s : σ) {stack : List (List Nat)} (hstack : Known t.tokens stack) :
    (sift judge finish m s stack).on t =
      (siftList judge finish s
        (labels t.tokens (NodeTree.visit (NodeTree.project t.tokens) m stack))).map some := by
  induction m generalizing t s stack with
  | zero => rfl
  | succ m ih =>
    unfold sift NodeTree.visit
    cases hnext : NodeTree.next? stack with
    | none => rfl
    | some top =>
      obtain ⟨id, rest⟩ := top
      obtain ⟨token, htoken, hpush⟩ := hstack.step h.closed hnext
      have htoken' : (t.keep id).tokens.tokens[id]? = some token := htoken
      simp only [on, NodeTree.made?_of_token htoken, NodeTree.made?_of_token htoken', h.childIds_eq,
        labels_cons htoken, siftList]
      cases judge s id token.kind with
      | inl result => rfl
      | inr s =>
        simp only [ih (h.keep id) s hpush]
        rfl

/-- A visit with room for every token yields all that is below a node. -/
theorem visit_eq_below (h : n.tree.Parsed) (hn : n.Genuine) {bound : Nat}
    (hbound : n.tree.tokens.size ≤ bound) :
    NodeTree.visit (NodeTree.project n.tree.tokens) bound [NodeTree.project n.tree.tokens n.id] =
      n.below.map Node.id := by
  have hproject : n.tree.childIds = NodeTree.project n.tree.tokens := funext h.childIds_eq
  have hlength : (n.below.map Node.id).length ≤
      (NodeTree.visit n.tree.childIds n.tree.tokens.size [n.tree.childIds n.id]).length := by
    rw [List.length_map]
    exact List.length_filterMap_le _ _
  rw [h.visit_eq_take hn, List.length_take] at hlength
  rw [← hproject, h.visit_eq_take hn]
  apply List.take_of_length_le
  omega

theorem on_descendants (h : n.tree.Parsed) (hn : n.Genuine) {bound : Nat}
    (hbound : n.tree.tokens.size ≤ bound) :
    (descendants bound n.id).on n.tree = n.descendants.map fun nodes => some (nodes.map Node.id) := by
  have hknown := known_children h.closed n.id
  simp only [descendants, on, made?_of_genuine hn, h.childIds_eq]
  rw [on_descend (h.keep n.id) bound hknown]
  have hvisit := visit_eq_below h hn hbound
  have htokens : (n.tree.keep n.id).tokens = n.tree.tokens := rfl
  rw [htokens, hvisit]
  rfl

/-- A loop over what is below a node, as the stack takes it. -/
theorem on_sift_below {σ β : Type} (judge : σ → Nat → K → β ⊕ σ) (finish : σ → β) (s : σ)
    (h : n.tree.Parsed) (hn : n.Genuine) {bound : Nat} (hbound : n.tree.tokens.size ≤ bound) :
    (Query.askChildren n.id fun ids => sift judge finish bound s [ids]).on n.tree = (do
      Look.ask n.id
      siftList judge finish s (n.below.map label)).map some := by
  have hknown := known_children h.closed n.id
  simp only [on, made?_of_genuine hn, h.childIds_eq]
  rw [on_sift judge finish (h.keep n.id) bound s hknown]
  have hvisit := visit_eq_below h hn hbound
  have htokens : (n.tree.keep n.id).tokens = n.tree.tokens := rfl
  have hlabels : labels n.tree.tokens (n.below.map Node.id) = n.below.map label :=
    labels_map_id fun _ => has_of_mem_filterMap
  rw [htokens, hvisit, hlabels]
  rfl

/-- The search below a node, by kind. -/
theorem on_find (test : K → Bool) (h : n.tree.Parsed) (hn : n.Genuine) {bound : Nat}
    (hbound : n.tree.tokens.size ≤ bound) :
    (find test bound n.id).on n.tree =
      (n.find fun m => test m.kind).map fun found => some (found.map Node.id) := by
  have hbelow := on_sift_below (pick test) (fun _ => none) () h hn hbound
  rw [find, on, made?_of_genuine hn]
  unfold Node.find
  by_cases htest : test n.kind
  · simp only [if_pos htest]
    rfl
  · simp only [if_neg htest]
    rw [hbelow, ← findIn_eq]
    rfl

/-- The check goes through the descendants by kind. -/
theorem checkFrom_eq_siftList (c : Constraints K) (container : NodeInfo) (unmet : List K)
    (nodes : List (Node K)) :
    c.checkFrom container unmet nodes =
      siftList (judge c container) (unmetError container) unmet (nodes.map label) := by
  induction nodes generalizing unmet with
  | nil => rfl
  | cons m rest ih =>
    rw [List.map_cons, Constraints.checkFrom, label, siftList, judge]
    by_cases hallowed : c.allows m.kind
    · simp only [if_pos hallowed]
      by_cases hmet : !c.mandatoryKinds.isEmpty && (Constraints.meet m.kind unmet).isEmpty
      · simp only [if_pos hmet]
      · simp only [if_neg hmet, ih]
    · simp only [if_neg hallowed]
      rfl

/-- **The check of a node,** against the constraints that it has. -/
theorem on_check (h : n.tree.Parsed) (hn : n.Genuine) {bound : Nat}
    (hbound : n.tree.tokens.size ≤ bound) : (check bound n.id).on n.tree = n.check.map some := by
  rw [check, on, made?_of_genuine hn]
  unfold Node.check
  cases n.constraints with
  | none => rfl
  | some c =>
    simp only
    rw [on_sift_below _ _ _ h hn hbound, ← checkFrom_eq_siftList]
    rfl

/-- A grammar that goes by the check of its nodes asks for no more than that. -/
theorem on_allowChecked (h : n.tree.Parsed) (hn : n.Genuine) {bound : Nat}
    (hbound : n.tree.tokens.size ≤ bound) :
    (allowChecked bound n.id).on n.tree = (Grammar.allowChecked n).map some := by
  have hasked : (Grammar.allowChecked n).asked = n.check.asked := by
    rw [Grammar.allowChecked, Look.asked_bind, Look.asked_pure, List.append_nil]
  rw [allowChecked, on_map, on_check h hn hbound]
  simp only [Look.map, hasked]
  rfl

/-! ## Going up -/

/-- What encloses the token of a number has a token. -/
theorem parent_lt_size (h : t.Parsed) {i : Nat} {token : Token K}
    (hi : t.tokens.tokens[i]? = some token) : ∀ p, token.parent = some p → p < t.tokens.size := by
  intro p hp
  have hlt := h.closed.parent i token p hi hp
  have hsize := TokenTree.lt_size hi
  omega

theorem on_climb (h : t.Parsed) (m : Nat) {next : Option Nat}
    (hnext : ∀ p, next = some p → p < t.tokens.size) :
    (climb m next).on t = ⟨some (t.climb m next), []⟩ := by
  induction m generalizing next with
  | zero => rfl
  | succ m ih =>
    cases next with
    | none => rfl
    | some p =>
      obtain ⟨token, htoken⟩ := TokenTree.exists_token (hnext p rfl)
      simp only [climb, on, htoken, NodeTree.climb, Option.bind_some]
      rw [on_map, ih (parent_lt_size h htoken)]
      rfl

theorem climb_lt_size (h : t.Parsed) (m : Nat) {next : Option Nat}
    (hnext : ∀ p, next = some p → p < t.tokens.size) : ∀ id ∈ t.climb m next, id < t.tokens.size := by
  induction m generalizing next with
  | zero => exact fun id hid => absurd hid List.not_mem_nil
  | succ m ih =>
    cases next with
    | none => exact fun id hid => absurd hid List.not_mem_nil
    | some p =>
      obtain ⟨token, htoken⟩ := TokenTree.exists_token (hnext p rfl)
      rw [NodeTree.climb, htoken]
      exact List.forall_mem_cons.2 ⟨hnext p rfl, ih (parent_lt_size h htoken)⟩

/-- A climb with room for every token goes all the way up. -/
theorem filterMap_climb (h : n.tree.Parsed) (hn : n.Genuine) {bound : Nat}
    (hbound : n.tree.tokens.size ≤ bound) :
    (n.tree.climb bound n.token.parent).filterMap n.tree.node? = n.ancestors := by
  have hup := parent_lt_size h (NodeTree.node?_eq_some hn).2.2
  have hclimb : n.tree.climb bound n.token.parent =
      n.tree.climb n.tree.tokens.size n.token.parent := by
    apply NodeTree.climb_eq_climb h.closed.parent
    · intro p hp
      have := hup p hp
      omega
    · exact hup
  rw [hclimb]
  rfl

theorem on_ancestors (h : n.tree.Parsed) (hn : n.Genuine) {bound : Nat}
    (hbound : n.tree.tokens.size ≤ bound) :
    (ancestors bound n.id).on n.tree = ⟨some (n.ancestors.map Node.id), []⟩ := by
  have htoken := (NodeTree.node?_eq_some hn).2.2
  have hup := parent_lt_size h htoken
  simp only [ancestors, on, htoken]
  rw [on_climb h bound hup, ← filterMap_climb h hn hbound,
    map_id_filterMap (climb_lt_size h bound hup)]

theorem on_depth (h : n.tree.Parsed) (hn : n.Genuine) {bound : Nat}
    (hbound : n.tree.tokens.size ≤ bound) : (depth bound n.id).on n.tree = ⟨some n.depth, []⟩ := by
  rw [depth, on_map, on_ancestors h hn hbound]
  unfold Node.depth
  rw [← List.length_map Node.id]
  rfl

theorem on_rise (test : K → Bool) (h : t.Parsed) (m skip : Nat) {next : Option Nat}
    (hnext : ∀ p, next = some p → p < t.tokens.size) :
    (rise test m skip next).on t =
      ⟨some (((((t.climb m next).filterMap t.node?).drop skip).find? fun a => test a.kind).map
        Node.id), []⟩ := by
  induction m generalizing skip next with
  | zero =>
    simp only [NodeTree.climb, List.filterMap_nil, List.drop_nil]
    rfl
  | succ m ih =>
    cases next with
    | none =>
      simp only [NodeTree.climb, List.filterMap_nil, List.drop_nil]
      rfl
    | some p =>
      obtain ⟨token, htoken⟩ := TokenTree.exists_token (hnext p rfl)
      have hnode := NodeTree.node?_of_token htoken
      have hup := parent_lt_size h htoken
      rw [NodeTree.climb, htoken, Option.bind_some, List.filterMap_cons_some hnode]
      cases skip with
      | succ skip =>
        rw [List.drop_succ_cons, ← ih skip hup]
        simp only [rise, on, htoken]
      | zero =>
        rw [List.drop_zero, List.find?_cons]
        have hrest := ih 0 hup
        rw [List.drop_zero] at hrest
        simp only [rise, on, htoken, NodeTree.made?_of_token htoken, Node.kind]
        by_cases htest : test token.kind
        · simp only [htest]
          rfl
        · simp only [htest]
          exact hrest

theorem on_findAncestor (test : K → Bool) (skip : Nat) (h : n.tree.Parsed) (hn : n.Genuine)
    {bound : Nat} (hbound : n.tree.tokens.size ≤ bound) :
    (findAncestor test skip bound n.id).on n.tree =
      ⟨some ((n.findAncestor (fun a => test a.kind) skip).map Node.id), []⟩ := by
  have htoken := (NodeTree.node?_eq_some hn).2.2
  simp only [findAncestor, on, htoken]
  rw [on_rise test h bound skip (parent_lt_size h htoken), filterMap_climb h hn hbound]
  rfl

/-! ## Making a node -/

variable {I : Type}

theorem on_refuse (h : n.tree.Parsed) (hn : n.Genuine) :
    (refuse n.id : Query K (Except Error (Assembly I))).on n.tree =
      ⟨some (.error (.refused n.info (n.parent?.map Node.info))), []⟩ := by
  have htoken := (NodeTree.node?_eq_some hn).2.2
  simp only [refuse, on, made?_of_genuine hn, htoken]
  cases hp : n.token.parent with
  | none =>
    rw [Node.parent?, hp]
    rfl
  | some p =>
    obtain ⟨outer, houter⟩ := TokenTree.exists_token (parent_lt_size h htoken p hp)
    have hparent : n.parent? = some ⟨n.tree, p, outer⟩ := by
      rw [Node.parent?, hp, Option.bind_some, NodeTree.node?_of_token houter]
    rw [hparent]
    simp only [on, NodeTree.made?_of_token houter]
    rfl

theorem structural_refuse (id : Nat) :
    (refuse id : Query K (Except Error (Assembly I))).Structural := by
  refine ⟨fun made made' hkind => ?_, fun made token => ?_⟩
  · simp only [hkind]
  · dsimp only
    cases token.parent with
    | none => trivial
    | some p => exact ⟨fun outer outer' hkind => by simp only [hkind], fun _ => trivial⟩

/-- **What a grammar makes of a node,** with any code that does on the tree what the grammar does.
The grammar emits a node in the tree that the look of `isAllowed` leaves. -/
theorem on_make (g : Grammar K I) (args : Bindings) (out : Assembly I)
    {isAllowed : Query K (Except Error Bool)} {emit : Query K (Except Error (Assembly I))}
    (h : n.tree.Parsed) (hn : n.Genuine) (hallowed : isAllowed.on n.tree = (g.isAllowed n).map some)
    (hemit : emit.on (n.tree.after (g.isAllowed n)) = (g.emit n args out).map some) :
    (make isAllowed emit n.id).on n.tree = (g.make n args out).map some := by
  have hvalue : (isAllowed.on n.tree).value = some (g.isAllowed n).value := by
    rw [hallowed]
    rfl
  have hafter : n.tree.after ((g.isAllowed n).map some) = n.tree.after (g.isAllowed n) := rfl
  have hrefuse : (refuse n.id : Query K (Except Error (Assembly I))).on (n.tree.after (g.isAllowed n)) =
      ⟨some (.error (.refused n.info (n.parent?.map Node.info))), []⟩ := by
    -- the look changed nothing that the refusal is about
    rw [← on_refuse h hn]
    exact (structural_refuse n.id).on_eq h (h.after _) (NodeTree.foldl_keep_tokens _ _)
  rw [make, on_bind _ hvalue, hallowed, hafter]
  unfold Grammar.make
  simp only [Look.map, Look.value_bind, Look.asked_bind]
  cases hallow : (g.isAllowed n).value with
  | error e => rfl
  | ok allowed =>
    cases allowed with
    | false =>
      simp only [hrefuse]
      rfl
    | true =>
      simp only [hemit]
      rfl

/-! ## What is safe -/

theorem safe_sift_below {σ β : Type} (judge : σ → Nat → K → β ⊕ σ) (finish : σ → β) (s : σ)
    (h : n.tree.Parsed) (hn : n.Genuine) {bound : Nat} (hbound : n.tree.tokens.size ≤ bound) :
    (Query.askChildren n.id fun ids => sift judge finish bound s [ids]).Safe n.tree.tokens := by
  have hsift := on_sift_below judge finish s h hn hbound
  have hstructural :
      (Query.askChildren n.id fun ids => sift judge finish bound s [ids]).Structural :=
    fun _ => structural_sift _ _ _ _ _
  exact hstructural.safe h (congrArg Look.value hsift)

/-- **The check of a node is safe,** whatever constraints it has by then. -/
theorem safe_check (h : n.tree.Parsed) (hn : n.Genuine) {bound : Nat}
    (hbound : n.tree.tokens.size ≤ bound) : (check bound n.id).Safe n.tree.tokens := by
  refine ⟨n.token, (NodeTree.node?_eq_some hn).2.2, fun made _ => ?_⟩
  dsimp only
  cases made.constraints with
  | none => trivial
  | some c => exact safe_sift_below _ _ _ h hn hbound

/-- **Making a node is safe** if the code of the grammar is. -/
theorem safe_make {isAllowed : Query K (Except Error Bool)}
    {emit : Query K (Except Error (Assembly I))} (h : n.tree.Parsed) (hn : n.Genuine)
    (hallowed : isAllowed.Safe n.tree.tokens) (hemit : emit.Safe n.tree.tokens) :
    (make isAllowed emit n.id).Safe n.tree.tokens := by
  apply hallowed.bind
  intro allowed
  have hrefuse : (refuse n.id : Query K (Except Error (Assembly I))).Safe n.tree.tokens :=
    (structural_refuse n.id).safe h (congrArg Look.value (on_refuse h hn))
  match allowed with
  | .error e => trivial
  | .ok false => exact hrefuse
  | .ok true => exact hemit

end

end Query

end Bracketry
