import Bracketry.Proofs.Lookups

/-!
# Laziness does not show

A history of a tree is a row of reads and of configurations of single nodes. Each of them may make
nodes and compute children, so the cells that are filled in the end depend on the order of all of
them. The answers do not.

* `settled_last`: the last configuration of a node decides about its constraints.
* `NodeTree.made?_of_step`, `NodeTree.made?_of_replay`: a node has the constraints that were set on
  it last, and children that were computed stay.
* `Cells.Holds.run_step`, `Cells.Holds.replay`: through any history the cells hold the tree to which
  the same was done.
* `history_unseen`: **after any history of a parsed tree, every answer about its structure is that
  of a fresh one,** the children in the cells are those that the tokens give and stay, and the
  constraints of a node depend on what was set on that node only.
-/

namespace Bracketry

variable {K : Type}

namespace Cells

/-- Does a step on a tree. -/
def Step.on : Step K → NodeTree K → NodeTree K
  | .read query, t => t.after (query.on t)
  | .configure id config, t => t.setConstraints id (config.apply (t.constraints id))

/-- A step that asks for numbers of tokens only. -/
def Step.Safe (tokens : TokenTree K) : Step K → Prop
  | .read query => query.Safe tokens
  | .configure _ _ => True

/-- What a step makes of the constraints of a node: a step on any other node leaves them, and so
does a read. -/
def Step.settle (id : Nat) (constraints : Option (Constraints K)) : Step K → Option (Constraints K)
  | .read _ => constraints
  | .configure j config => if j = id then config.apply constraints else constraints

end Cells

/-- The tree after a history. -/
def NodeTree.replay (t : NodeTree K) (steps : List (Cells.Step K)) : NodeTree K :=
  steps.foldl (fun t step => step.on t) t

/-- What a history makes of the constraints of a node. -/
def settled (id : Nat) (constraints : Option (Constraints K)) (steps : List (Cells.Step K)) :
    Option (Constraints K) :=
  steps.foldl (Cells.Step.settle id) constraints

/-! ## What is set last -/

section

variable {id : Nat} {constraints : Option (Constraints K)} {steps before after : List (Cells.Step K)}

/-- A node that no step configures keeps its constraints. -/
theorem settled_of_unset (h : ∀ config, .configure id config ∉ steps) :
    settled id constraints steps = constraints := by
  induction steps with
  | nil => rfl
  | cons step rest ih =>
    have hrest : ∀ config, .configure id config ∉ rest :=
      fun config hmem => h config (List.mem_cons_of_mem _ hmem)
    have hstep : step.settle id constraints = constraints := by
      cases step with
      | read query => rfl
      | configure j config =>
        have hj : j ≠ id := by
          rintro rfl
          exact h config List.mem_cons_self
        exact if_neg hj
    have hfirst : settled id constraints (step :: rest) =
        settled id (step.settle id constraints) rest := rfl
    rw [hfirst, hstep, ih hrest]

/-- **The last configuration of a node decides,** on what those before it left. -/
theorem settled_last (config : Config K) (h : ∀ config', .configure id config' ∉ after) :
    settled id constraints (before ++ .configure id config :: after) =
      config.apply (settled id constraints before) := by
  have hsplit : settled id constraints (before ++ .configure id config :: after) =
      settled id (Cells.Step.settle id (settled id constraints before) (.configure id config))
        after := List.foldl_append
  rw [hsplit, settled_of_unset h]
  exact if_pos rfl

end

/-! ## Histories of a tree -/

namespace NodeTree

variable {t : NodeTree K} {id : Nat} {made : MadeNode K}

/-- Keeping the children of any node leaves a node its constraints and the children that it has. -/
theorem made?_of_keep (h : t.Sized) (hmade : t.made? id = some made) (j : Nat) :
    ∃ made', (t.keep j).made? id = some made' ∧ made'.constraints = made.constraints ∧
      ∀ ids, made.children = some ids → made'.children = some ids := by
  rw [made?_keep h, hmade]
  by_cases hj : id = j
  · subst hj
    rw [if_pos rfl]
    refine ⟨_, rfl, rfl, fun ids hids => ?_⟩
    dsimp only
    rw [hids]
    rfl
  · rw [if_neg hj]
    exact ⟨made, rfl, rfl, fun _ hids => hids⟩

theorem made?_of_foldl_keep (h : t.Sized) (hmade : t.made? id = some made) (asked : List Nat) :
    ∃ made', (asked.foldl keep t).made? id = some made' ∧
      made'.constraints = made.constraints ∧
        ∀ ids, made.children = some ids → made'.children = some ids := by
  induction asked generalizing t made with
  | nil => exact ⟨made, hmade, rfl, fun _ hids => hids⟩
  | cons j rest ih =>
    obtain ⟨made₁, hmade₁, hconstraints₁, hkept₁⟩ := made?_of_keep h hmade j
    obtain ⟨made₂, hmade₂, hconstraints₂, hkept₂⟩ := ih (h.foldl_keep [j]) hmade₁
    exact ⟨made₂, hmade₂, hconstraints₂.trans hconstraints₁,
      fun ids hids => hkept₂ ids (hkept₁ ids hids)⟩

theorem bind_made? (h : t.Sized) (id : Nat) :
    (t.made? id).bind MadeNode.children = t.computed id := by
  cases htoken : t.tokens.tokens[id]? with
  | none =>
    have hstate : t.states[id]? = none := by
      rw [Array.getElem?_eq_none_iff] at htoken ⊢
      exact h ▸ htoken
    rw [made?, htoken, computed, hstate]
    rfl
  | some token =>
    rw [made?_of_token htoken]
    rfl

theorem tokens_step (t : NodeTree K) (step : Cells.Step K) : (step.on t).tokens = t.tokens := by
  cases step with
  | read query => exact foldl_keep_tokens _ _
  | configure id config => rfl

theorem tokens_replay (t : NodeTree K) (steps : List (Cells.Step K)) :
    (t.replay steps).tokens = t.tokens := by
  induction steps generalizing t with
  | nil => rfl
  | cons step rest ih => exact (ih (step.on t)).trans (tokens_step t step)

variable [DecidableEq K] [Taxonomy K]

theorem Parsed.step (h : t.Parsed) (step : Cells.Step K) : (step.on t).Parsed := by
  cases step with
  | read query => exact h.after _
  | configure id config => exact h.setConstraints id _

/-- **What a step does to a node:** its constraints change only if the step sets them on this node,
and children that were computed stay. -/
theorem made?_of_step (h : t.Parsed) (hmade : t.made? id = some made) (step : Cells.Step K) :
    ∃ made', (step.on t).made? id = some made' ∧
      made'.constraints = step.settle id made.constraints ∧
        ∀ ids, made.children = some ids → made'.children = some ids := by
  cases step with
  | read query => exact made?_of_foldl_keep h.sized hmade _
  | configure j config =>
    obtain ⟨-, -, -, hconstraints, -⟩ := made?_eq_some hmade
    simp only [Cells.Step.on, Cells.Step.settle, made?_setConstraints h.sized, hmade]
    by_cases hj : id = j
    · subst hj
      rw [if_pos rfl, if_pos rfl, hconstraints]
      exact ⟨_, rfl, rfl, fun _ hids => hids⟩
    · rw [if_neg hj, if_neg (Ne.symm hj)]
      exact ⟨made, rfl, rfl, fun _ hids => hids⟩

theorem Parsed.replay (h : t.Parsed) (steps : List (Cells.Step K)) : (t.replay steps).Parsed := by
  induction steps generalizing t with
  | nil => exact h
  | cons step rest ih => exact ih (h.step step)

/-- **What a history does to a node:** it has the constraints that were set on it last, and children
that were computed stay. -/
theorem made?_of_replay (h : t.Parsed) (hmade : t.made? id = some made)
    (steps : List (Cells.Step K)) :
    ∃ made', (t.replay steps).made? id = some made' ∧
      made'.constraints = settled id made.constraints steps ∧
        ∀ ids, made.children = some ids → made'.children = some ids := by
  induction steps generalizing t made with
  | nil => exact ⟨made, hmade, rfl, fun _ hids => hids⟩
  | cons step rest ih =>
    obtain ⟨made₁, hmade₁, hconstraints₁, hkept₁⟩ := made?_of_step h hmade step
    obtain ⟨made₂, hmade₂, hconstraints₂, hkept₂⟩ := ih (h.step step) hmade₁
    refine ⟨made₂, hmade₂, ?_, fun ids hids => hkept₂ ids (hkept₁ ids hids)⟩
    rw [hconstraints₂, hconstraints₁]
    rfl

end NodeTree

/-! ## Histories of cells -/

namespace Cells

variable [DecidableEq K] [Taxonomy K] {c c' : Cells K} {t t' : NodeTree K}

/-- Through a step the cells hold the tree to which the same was done. -/
theorem Holds.run_step (h : c.Holds t) (hp : t.Parsed) {step : Step K} (hrun : step.run c = some c') :
    c'.Holds (step.on t) := by
  cases step with
  | read query =>
    obtain ⟨c₁, hheld, hquery⟩ := query.exists_run h hp
    simp only [Step.run, hquery, Option.map_map] at hrun
    obtain ⟨a, -, rfl⟩ := Option.map_eq_some_iff.1 hrun
    exact hheld
  | configure id config =>
    obtain ⟨c₁, hconfigure, hheld⟩ := h.configure hp.sized id config.apply
    simp only [Step.run, hconfigure, Option.map_some, Option.some.injEq] at hrun
    rw [← hrun]
    exact hheld

/-- A safe step does not fail. -/
theorem Holds.exists_step (h : c.Holds t) (hp : t.Parsed) {step : Step K}
    (hsafe : step.Safe t.tokens) : ∃ c', step.run c = some c' := by
  cases step with
  | read query =>
    obtain ⟨c₁, -, hquery⟩ := query.exists_run h hp
    obtain ⟨a, ha⟩ := Query.Safe.exists_answer hsafe hp
    refine ⟨c₁, ?_⟩
    rw [Step.run, hquery, ha]
    rfl
  | configure id config =>
    obtain ⟨c₁, hconfigure, -⟩ := h.configure hp.sized id config.apply
    refine ⟨c₁, ?_⟩
    rw [Step.run, hconfigure]
    rfl

/-- **Through any history the cells hold the tree to which the same was done.** -/
theorem Holds.replay (h : c.Holds t) (hp : t.Parsed) {steps : List (Step K)}
    (hrun : c.replay steps = some c') : c'.Holds (t.replay steps) := by
  induction steps generalizing c t with
  | nil =>
    obtain rfl : c = c' := Option.some.inj hrun
    exact h
  | cons step rest ih =>
    rw [Cells.replay, List.foldlM_cons] at hrun
    obtain ⟨c₁, hstep, hrest⟩ := Option.bind_eq_some_iff.1 hrun
    exact ih (h.run_step hp hstep) (hp.step step) hrest

/-- A history of safe steps does not fail. -/
theorem Holds.exists_replay (h : c.Holds t) (hp : t.Parsed) {steps : List (Step K)}
    (hsafe : ∀ step ∈ steps, step.Safe t.tokens) : ∃ c', c.replay steps = some c' := by
  induction steps generalizing c t with
  | nil => exact ⟨c, rfl⟩
  | cons step rest ih =>
    obtain ⟨hstep, hrest⟩ := List.forall_mem_cons.1 hsafe
    obtain ⟨c₁, hrun⟩ := h.exists_step hp hstep
    rw [← NodeTree.tokens_step t step] at hrest
    obtain ⟨c₂, hrun₂⟩ := ih (h.run_step hp hrun) (hp.step step) hrest
    refine ⟨c₂, ?_⟩
    rw [Cells.replay, List.foldlM_cons, hrun]
    exact hrun₂

omit [DecidableEq K] [Taxonomy K] in
theorem bind_found? (c : Cells K) (id : Nat) :
    (c.found? id).bind MadeNode.children = c.memo? id := by
  unfold found? memo?
  cases c.nodes[id]? with
  | none => rfl
  | some cell =>
    cases cell with
    | none =>
      -- a node that is only now made has no children yet
      unfold create
      cases c.tokens.tokens[id]? <;> rfl
    | some made => rfl

omit [DecidableEq K] [Taxonomy K] in
/-- The children in the cells are those that the tree has computed. -/
theorem Holds.memo?_eq (h : c.Holds t) (hsized : t.Sized) (id : Nat) :
    c.memo? id = t.computed id := by
  rw [← bind_found?, h.found, NodeTree.bind_made? hsized]

/-! ## Answers -/

/-- The cells answer questions about the structure around a node as the node does. -/
structure Answers (c : Cells K) (n : Node K) : Prop where
  children : (Query.childIds n.id).answer c = some n.childIds.value
  hasChildren : (Query.hasChildren n.id).answer c = some n.hasChildren.value
  descendants : ∀ bound, n.tree.tokens.size ≤ bound →
    (Query.descendants bound n.id).answer c = some (n.descendants.value.map Node.id)
  ancestors : ∀ bound, n.tree.tokens.size ≤ bound →
    (Query.ancestors bound n.id).answer c = some (n.ancestors.map Node.id)
  depth : ∀ bound, n.tree.tokens.size ≤ bound →
    (Query.depth bound n.id).answer c = some n.depth
  find : ∀ (test : K → Bool) (bound : Nat), n.tree.tokens.size ≤ bound →
    (Query.find test bound n.id).answer c =
      some ((n.find fun m => test m.kind).value.map Node.id)
  findAncestor : ∀ (test : K → Bool) (skip bound : Nat), n.tree.tokens.size ≤ bound →
    (Query.findAncestor test skip bound n.id).answer c =
      some ((n.findAncestor (fun m => test m.kind) skip).map Node.id)

/-- Cells answer as the nodes of any parsed tree of their tokens. -/
theorem Holds.answers (h : c.Holds t) (hp : t.Parsed) {n : Node K} (hn : t'.Has n) (hp' : t'.Parsed)
    (htokens : t'.tokens = t.tokens) : c.Answers n := by
  obtain ⟨rfl, hgenuine⟩ := NodeTree.has_iff.1 hn
  have hanswer : ∀ {α : Type} {q : Query K α} {look : Look (Option α)}, q.Structural →
      q.on n.tree = look → q.answer c = look.value := by
    intro α q look hq hon
    rw [Query.answer_eq h hp, ← hq.on_eq hp hp' htokens, hon]
  refine ⟨?_, ?_, ?_, ?_, ?_, ?_, ?_⟩
  · exact hanswer (Query.structural_childIds _) (Query.on_childIds hgenuine)
  · exact hanswer (Query.structural_hasChildren _) (Query.on_hasChildren hgenuine)
  · intro bound hbound
    exact hanswer (Query.structural_descendants _ _) (Query.on_descendants hp' hgenuine hbound)
  · intro bound hbound
    exact hanswer (Query.structural_ancestors _ _) (Query.on_ancestors hp' hgenuine hbound)
  · intro bound hbound
    exact hanswer (Query.structural_depth _ _) (Query.on_depth hp' hgenuine hbound)
  · intro test bound hbound
    exact hanswer (Query.structural_find _ _ _) (Query.on_find test hp' hgenuine hbound)
  · intro test skip bound hbound
    exact hanswer (Query.structural_findAncestor _ _ _ _)
      (Query.on_findAncestor test skip hp' hgenuine hbound)

/-- Cells check a node as the tree that they hold does. -/
theorem Holds.answer_check (h : c.Holds t) (hp : t.Parsed) {n : Node K} (hn : t.Has n) {bound : Nat}
    (hbound : t.tokens.size ≤ bound) :
    (Query.check bound n.id).answer c = some n.check.value := by
  obtain ⟨rfl, hgenuine⟩ := NodeTree.has_iff.1 hn
  rw [Query.answer_eq h hp, Query.on_check hp hgenuine hbound]
  rfl

/-- Cells make a node as the tree that they hold does, with any code that does on the tree what the
grammar does. -/
theorem Holds.answer_make {I : Type} (h : c.Holds t) (hp : t.Parsed) {n : Node K} (hn : t.Has n)
    (g : Grammar K I) (args : Bindings) (out : Assembly I) {isAllowed : Query K (Except Error Bool)}
    {emit : Query K (Except Error (Assembly I))}
    (hallowed : isAllowed.on t = (g.isAllowed n).map some)
    (hemit : emit.on (t.after (g.isAllowed n)) = (g.emit n args out).map some) :
    (Query.make isAllowed emit n.id).answer c = some (g.make n args out).value := by
  obtain ⟨rfl, hgenuine⟩ := NodeTree.has_iff.1 hn
  rw [Query.answer_eq h hp, Query.on_make g args out hp hgenuine hallowed hemit]
  rfl

/-- **Children in a cell stay there,** whatever comes later. -/
theorem Holds.memo?_of_replay (h : c.Holds t) (hp : t.Parsed) {id : Nat} {ids : List Nat}
    (hids : c.memo? id = some ids) {later : List (Step K)} (hlater : c.replay later = some c') :
    c'.memo? id = some ids := by
  have hp' := hp.replay later
  rw [h.memo?_eq hp.sized, ← NodeTree.bind_made? hp.sized] at hids
  obtain ⟨made, hmade, hchildren⟩ := Option.bind_eq_some_iff.1 hids
  obtain ⟨made', hmade', -, hkept⟩ := NodeTree.made?_of_replay hp hmade later
  rw [(h.replay hp hlater).memo?_eq hp'.sized, ← NodeTree.bind_made? hp'.sized, hmade']
  exact hkept ids hchildren

/-- **Cells answer with the constraints that the history set.** -/
theorem answer_constraints {strict : K → Option (Constraints K)} {tokens : TokenTree K}
    (hp : (NodeTree.ofTokens strict tokens).Parsed) {steps : List (Step K)}
    (hrun : (fresh strict tokens).replay steps = some c) {id : Nat} {token : Token K}
    (htoken : tokens.tokens[id]? = some token) :
    (Query.constraints id).answer c = some (settled id (strict token.kind) steps) := by
  have hholds := (holds_fresh strict tokens).replay hp hrun
  have hfirst : (NodeTree.ofTokens strict tokens).constraints id = strict token.kind := by
    unfold NodeTree.constraints NodeTree.ofTokens
    dsimp only
    rw [Array.getElem?_map, htoken]
    rfl
  have hmade := NodeTree.made?_of_token (t := NodeTree.ofTokens strict tokens) htoken
  obtain ⟨made, hmade', hsettled, -⟩ := NodeTree.made?_of_replay hp hmade steps
  rw [Query.answer_eq hholds (hp.replay steps), Query.on_constraints hmade', hsettled, hfirst]

/-- **What a history leaves.** The cells hold the tree to which the same was done. Queries that ask
for kinds and children only are answered as by a fresh tree, and the questions of the engine are
answered as the nodes of a fresh tree do, and as those of the tree as it is now. A node is checked
against the constraints that it has now, and a grammar makes of it what it makes of the node as it is
now. Children in the cells are those that the tokens give, and
no later history changes them. The constraints of a node are those that were set on it last, else
those of its kind, whatever was done to other nodes. -/
structure Unseen (strict : K → Option (Constraints K)) (tokens : TokenTree K)
    (steps : List (Step K)) (c : Cells K) : Prop where
  holds : c.Holds ((NodeTree.ofTokens strict tokens).replay steps)
  same : ∀ {α : Type} (q : Query K α), q.Structural → q.answer c = q.answer (fresh strict tokens)
  asFresh : ∀ n, (NodeTree.ofTokens strict tokens).Has n → c.Answers n
  asNow : ∀ n, ((NodeTree.ofTokens strict tokens).replay steps).Has n → c.Answers n
  check : ∀ n, ((NodeTree.ofTokens strict tokens).replay steps).Has n →
    ∀ bound, tokens.size ≤ bound → (Query.check bound n.id).answer c = some n.check.value
  make : ∀ n, ((NodeTree.ofTokens strict tokens).replay steps).Has n → ∀ {I : Type}
    (g : Grammar K I) (args : Bindings) (out : Assembly I) (isAllowed : Query K (Except Error Bool))
    (emit : Query K (Except Error (Assembly I))), isAllowed.on n.tree = (g.isAllowed n).map some →
      emit.on (n.tree.after (g.isAllowed n)) = (g.emit n args out).map some →
        (Query.make isAllowed emit n.id).answer c = some (g.make n args out).value
  memo : ∀ id ids, c.memo? id = some ids → ids = NodeTree.project tokens id ∧
    ∀ later c', c.replay later = some c' → c'.memo? id = some ids
  constraints : ∀ (id : Nat) (token : Token K), tokens.tokens[id]? = some token →
    (Query.constraints id).answer c = some (settled id (strict token.kind) steps)
  unset : ∀ (id : Nat) (token : Token K), tokens.tokens[id]? = some token →
    (∀ config, .configure id config ∉ steps) →
      (Query.constraints id).answer c = some (strict token.kind)
  lastSet : ∀ (id : Nat) (before after : List (Step K)) (last : Option (Constraints K)),
    id < tokens.size → steps = before ++ .configure id (.set last) :: after →
      (∀ config, .configure id config ∉ after) → (Query.constraints id).answer c = some last

end Cells

/-- **Laziness does not show.** After any history of a parsed tree, its cells answer as those of a
fresh one. A history that asks for numbers of tokens only does not fail. -/
theorem history_unseen [DecidableEq K] [Taxonomy K] {rules : Ruleset K} {limits : Limits}
    {source : Text} {tokens : TokenTree K} (hscan : TokenTree.scan rules limits source = .ok tokens)
    (strict : K → Option (Constraints K)) (steps : List (Cells.Step K)) :
    ((∀ step ∈ steps, step.Safe tokens) → ∃ c, (Cells.fresh strict tokens).replay steps = some c) ∧
      ∀ c, (Cells.fresh strict tokens).replay steps = some c → Cells.Unseen strict tokens steps c := by
  have hfresh := Cells.holds_fresh strict tokens
  have hparsed : (NodeTree.ofTokens strict tokens).Parsed := .scan strict hscan
  refine ⟨hfresh.exists_replay hparsed, fun c hrun => ?_⟩
  have hholds := hfresh.replay hparsed hrun
  have hreached := hparsed.replay steps
  have htokens := NodeTree.tokens_replay (NodeTree.ofTokens strict tokens) steps
  have hconstraints : ∀ (id : Nat) (token : Token K), tokens.tokens[id]? = some token →
      (Query.constraints id).answer c = some (settled id (strict token.kind) steps) :=
    fun _ _ htoken => Cells.answer_constraints hparsed hrun htoken
  refine ⟨hholds, ?_, ?_, ?_, ?_, ?_, ?_, hconstraints, ?_, ?_⟩
  · intro α q hq
    rw [Query.answer_eq hholds hreached, Query.answer_eq hfresh hparsed,
      hq.on_eq hparsed hreached htokens]
  · intro n hn
    exact hholds.answers hreached hn hparsed htokens.symm
  · intro n hn
    exact hholds.answers hreached hn hreached rfl
  · intro n hn bound hbound
    apply hholds.answer_check hreached hn
    rw [htokens]
    exact hbound
  · intro n hn I g args out isAllowed emit hallowed hemit
    obtain ⟨htree, -⟩ := NodeTree.has_iff.1 hn
    rw [htree] at hallowed hemit
    exact hholds.answer_make hreached hn g args out hallowed hemit
  · intro id ids hids
    have hcomputed := hids
    rw [hholds.memo?_eq hreached.sized] at hcomputed
    have hproject := hreached.faithful id ids hcomputed
    rw [htokens] at hproject
    exact ⟨hproject, fun _ _ hlater => hholds.memo?_of_replay hreached hids hlater⟩
  · intro id token htoken hunset
    rw [hconstraints id token htoken, settled_of_unset hunset]
  · rintro id before after last hid rfl hafter
    obtain ⟨token, htoken⟩ := TokenTree.exists_token hid
    rw [hconstraints id token htoken, settled_last _ hafter]
    rfl

/-- A grammar that goes by the check of its nodes, and whose nodes emit nothing. -/
def Grammar.silent [DecidableEq K] [Taxonomy K] (rules : Ruleset K) : Grammar K Unit :=
  { plain rules fun _ => () with emit := fun _ _ out => pure (.ok out) }

/-- What that grammar makes of the root. -/
def Query.makeRoot [DecidableEq K] [Taxonomy K] (tokens : TokenTree K) :
    Query K (Except Error (Assembly Unit)) :=
  make (allowChecked tokens.size tokens.root) (.done (.ok [])) tokens.root

/-- A visit of a tree, a configuration of its root, and the making of the root, which is checked
against it. -/
def Cells.visitAndMake [DecidableEq K] [Taxonomy K] (tokens : TokenTree K) : List (Step K) :=
  [.read (Query.descendants tokens.size tokens.root),
    .configure tokens.root (.set (some Constraints.fresh)), .read (Query.makeRoot tokens)]

/-- That history asks for tokens that there are. -/
theorem Cells.safe_visitAndMake [DecidableEq K] [Taxonomy K] {t : NodeTree K} (hparsed : t.Parsed) :
    ∀ step ∈ visitAndMake t.tokens, step.Safe t.tokens := by
  have hvisit := Query.on_descendants hparsed t.genuine_root (Nat.le_refl _)
  have hcheck := Query.safe_check hparsed t.genuine_root (Nat.le_refl _)
  have hallowed := hcheck.map fun r => r.map fun _ => true
  unfold visitAndMake
  simp only [List.forall_mem_cons]
  refine ⟨?_, trivial, Query.safe_make hparsed t.genuine_root hallowed trivial, ?_⟩
  · exact (Query.structural_descendants _ _).safe hparsed (congrArg Look.value hvisit)
  · exact fun _ h => absurd h List.not_mem_nil

theorem history_unseen_sample : ∃ (tokens : TokenTree Template.Kind) (c : Cells Template.Kind)
    (root : Node Template.Kind),
    TokenTree.scan Template.rules .default Template.sample = .ok tokens ∧
      (Cells.fresh Template.constraints tokens).replay (Cells.visitAndMake tokens) = some c ∧
      Cells.Unseen Template.constraints tokens (Cells.visitAndMake tokens) c ∧
      (Query.constraints tokens.root).answer c = some (some Constraints.fresh) ∧
      root = ((NodeTree.ofTokens Template.constraints tokens).replay (Cells.visitAndMake tokens)).root ∧
      (Query.makeRoot tokens).answer c =
        some ((Grammar.silent Template.rules).make root .empty []).value := by
  obtain ⟨tokens, hscan, -⟩ := Template.scan_sample
  have hparsed : (NodeTree.ofTokens Template.constraints tokens).Parsed :=
    .scan Template.constraints hscan
  obtain ⟨hexists, hunseen⟩ := history_unseen hscan Template.constraints (Cells.visitAndMake tokens)
  obtain ⟨c, hrun⟩ := hexists (Cells.safe_visitAndMake hparsed)
  have hseen := hunseen c hrun
  have hconstraints := hseen.constraints tokens.root tokens.rootToken
    (Array.getElem?_eq_getElem tokens.root_lt)
  obtain ⟨t, ht⟩ : ∃ t, t = (NodeTree.ofTokens Template.constraints tokens).replay
    (Cells.visitAndMake tokens) := ⟨_, rfl⟩
  obtain rfl : t.tokens = tokens := ht ▸ NodeTree.tokens_replay _ _
  refine ⟨t.tokens, c, t.root, hscan, hrun, hseen, ?_, congrArg NodeTree.root ht, ?_⟩
  · rw [hconstraints]
    simp only [settled, Cells.visitAndMake, List.foldl_cons, List.foldl_nil, Cells.Step.settle,
      if_pos, Config.apply]
  · have hreached : t.Parsed := ht ▸ hparsed.replay _
    have hallowed := Query.on_allowChecked hreached t.genuine_root (Nat.le_refl _)
    have hhas : t.Has t.root := NodeTree.has_iff.2 ⟨rfl, t.genuine_root⟩
    exact hseen.make t.root (ht ▸ hhas) (Grammar.silent Template.rules) .empty [] _ _ hallowed rfl

end Bracketry
