import Bracketry.Proofs.Cells
import Bracketry.Tree.Query

/-!
# Queries on a tree

A query runs on the cells in place, and it runs on a tree, whose nodes are all there. What the tree
answers does not depend on what was made before.

* `Query.on`: what a tree answers to a query.
* `Query.exists_run`: **cells that hold a tree answer a query as the tree does,** and hold the tree
  after it.
* `Query.Structural.on_eq`: a query that asks for kinds and children only has the same answers on
  all trees of the same tokens.
* `Query.Safe.exists_answer`: a query that asks for numbers of tokens only has an answer.
-/

namespace Bracketry

/-- A look with its value changed. -/
def Look.map {α β : Type} (l : Look α) (f : α → β) : Look β := ⟨f l.value, l.asked⟩

namespace Query

variable {K α β : Type}

/-- What a tree answers to a query. There is no answer if the query asks for a number that no token
has. -/
def on : Query K α → NodeTree K → Look (Option α)
  | .done a, _ => pure (some a)
  | .askToken id next, t =>
    match t.tokens.tokens[id]? with
    | some token => (next token).on t
    | none => pure none
  | .askNode id next, t =>
    match t.made? id with
    | some made => (next made).on t
    | none => pure none
  | .askChildren id next, t =>
    match t.made? id with
    | some _ => do
      Look.ask id
      (next (t.childIds id)).on (t.keep id)
    | none => pure none

/-- A query that asks for kinds and children only. It does not see constraints, nor what was
computed before. -/
def Structural : Query K α → Prop
  | .done _ => True
  | .askToken _ next => ∀ token, (next token).Structural
  | .askNode _ next =>
    (∀ made made', made.kind = made'.kind → next made = next made') ∧
      ∀ made, (next made).Structural
  | .askChildren _ next => ∀ ids, (next ids).Structural

/-- A query that asks for numbers of tokens only, whatever the constraints are and whatever was
computed before. -/
def Safe (tokens : TokenTree K) : Query K α → Prop
  | .done _ => True
  | .askToken id next => ∃ token, tokens.tokens[id]? = some token ∧ (next token).Safe tokens
  | .askNode id next => ∃ token, tokens.tokens[id]? = some token ∧
      ∀ made : MadeNode K, made.kind = token.kind → (next made).Safe tokens
  | .askChildren id next => id < tokens.size ∧ (next (NodeTree.project tokens id)).Safe tokens

/-! ## One query after another -/

section

variable {t : NodeTree K}

/-- The second query is answered by the tree that the first one leaves. -/
theorem on_bind {q : Query K α} {a : α} (f : α → Query K β) (ha : (q.on t).value = some a) :
    (q.bind f).on t = ⟨((f a).on (t.after (q.on t))).value,
      (q.on t).asked ++ ((f a).on (t.after (q.on t))).asked⟩ := by
  induction q generalizing t with
  | done b =>
    obtain rfl : b = a := Option.some.inj ha
    rfl
  | askToken id next ih =>
    cases htoken : t.tokens.tokens[id]? with
    | none =>
      simp only [on, htoken] at ha
      cases ha
    | some token =>
      simp only [on, htoken] at ha
      simp only [bind, on, htoken]
      exact ih token ha
  | askNode id next ih =>
    cases hmade : t.made? id with
    | none =>
      simp only [on, hmade] at ha
      cases ha
    | some made =>
      simp only [on, hmade] at ha
      simp only [bind, on, hmade]
      exact ih made ha
  | askChildren id next ih =>
    cases hmade : t.made? id with
    | none =>
      simp only [on, hmade] at ha
      cases ha
    | some made =>
      simp only [on, hmade] at ha
      simp only [bind, on, hmade]
      rw [ih (t.childIds id) ha]
      rfl

theorem on_map (q : Query K α) (f : α → β) : (q.map f).on t = (q.on t).map (Option.map f) := by
  induction q generalizing t with
  | done a => rfl
  | askToken id next ih =>
    show on (.askToken id fun token => (next token).map f) t = _
    simp only [on]
    cases t.tokens.tokens[id]? with
    | none => rfl
    | some token => exact ih token
  | askNode id next ih =>
    show on (.askNode id fun made => (next made).map f) t = _
    simp only [on]
    cases t.made? id with
    | none => rfl
    | some made => exact ih made
  | askChildren id next ih =>
    show on (.askChildren id fun ids => (next ids).map f) t = _
    simp only [on]
    cases t.made? id with
    | none => rfl
    | some made =>
      simp only [ih]
      rfl

theorem Structural.bind {q : Query K α} (hq : q.Structural) {f : α → Query K β}
    (hf : ∀ a, (f a).Structural) : (q.bind f).Structural := by
  induction q with
  | done a => exact hf a
  | askToken id next ih => exact fun token => ih token (hq token)
  | askNode id next ih =>
    refine ⟨fun made made' hkind => ?_, fun made => ih made (hq.2 made)⟩
    exact congrArg (fun q => q.bind f) (hq.1 made made' hkind)
  | askChildren id next ih => exact fun ids => ih ids (hq ids)

theorem Safe.bind {tokens : TokenTree K} {q : Query K α} (hq : q.Safe tokens) {f : α → Query K β}
    (hf : ∀ a, (f a).Safe tokens) : (q.bind f).Safe tokens := by
  induction q with
  | done a => exact hf a
  | askToken id next ih =>
    obtain ⟨token, htoken, hnext⟩ := hq
    exact ⟨token, htoken, ih token hnext⟩
  | askNode id next ih =>
    obtain ⟨token, htoken, hnext⟩ := hq
    exact ⟨token, htoken, fun made hmade => ih made (hnext made hmade)⟩
  | askChildren id next ih =>
    obtain ⟨hid, hnext⟩ := hq
    exact ⟨hid, ih _ hnext⟩

theorem Safe.map {tokens : TokenTree K} {q : Query K α} (hq : q.Safe tokens) (f : α → β) :
    (q.map f).Safe tokens :=
  hq.bind fun _ => trivial

theorem Structural.map {q : Query K α} (hq : q.Structural) (f : α → β) : (q.map f).Structural :=
  hq.bind fun _ => trivial

end

/-! ## Cells answer as trees do -/

section

variable [DecidableEq K] [Taxonomy K] {t t' : NodeTree K} {c : Cells K}

/-- **Cells that hold a tree answer a query as the tree does,** and hold the tree after it. -/
theorem exists_run (h : c.Holds t) (hp : t.Parsed) (q : Query K α) :
    ∃ c', c'.Holds (t.after (q.on t)) ∧
      q.run.run c = (q.on t).value.map fun a => (a, c') := by
  induction q generalizing c t with
  | done a => exact ⟨c, h, rfl⟩
  | askToken id next ih =>
    cases htoken : t.tokens.tokens[id]? with
    | none =>
      refine ⟨c, ?_, ?_⟩
      · simp only [on, htoken]
        exact h
      · simp [run, on, h.tokens, htoken]
    | some token =>
      obtain ⟨c', hc', hrun⟩ := ih token h hp
      refine ⟨c', ?_, ?_⟩
      · simp only [on, htoken]
        exact hc'
      · simp [run, on, h.tokens, htoken, hrun]
  | askNode id next ih =>
    cases hmade : t.made? id with
    | none =>
      have hnode := h.node_none hmade
      refine ⟨c, ?_, ?_⟩
      · simp only [on, hmade]
        exact h
      · simp [run, on, hmade, hnode]
    | some made =>
      obtain ⟨hnode, hheld⟩ := h.node hmade
      obtain ⟨c', hc', hrun⟩ := ih made hheld hp
      refine ⟨c', ?_, ?_⟩
      · simp only [on, hmade]
        exact hc'
      · simp [run, on, hmade, hnode, hrun]
  | askChildren id next ih =>
    cases hmade : t.made? id with
    | none =>
      have hchildren := h.children_none hmade
      refine ⟨c, ?_, ?_⟩
      · simp only [on, hmade]
        exact h
      · simp [run, on, hmade, hchildren]
    | some made =>
      obtain ⟨kept, hchildren, hheld⟩ := h.children hp.sized hp.closed hmade
      obtain ⟨c', hc', hrun⟩ := ih (t.childIds id) hheld (hp.keep id)
      refine ⟨c', ?_, ?_⟩
      · simp only [on, hmade]
        exact hc'
      · simp [run, on, hmade, hchildren, hrun]

/-- The answer to a query is that of the tree that the cells hold. -/
theorem answer_eq (h : c.Holds t) (hp : t.Parsed) (q : Query K α) : q.answer c = (q.on t).value := by
  obtain ⟨c', -, hrun⟩ := exists_run h hp q
  rw [answer, hrun]
  cases (q.on t).value <;> rfl

/-- **A query that asks for kinds and children only has the same answers on all trees of the same
tokens.** -/
theorem Structural.on_eq {q : Query K α} (hq : q.Structural) (hp : t.Parsed) (hp' : t'.Parsed)
    (htokens : t'.tokens = t.tokens) : q.on t' = q.on t := by
  induction q generalizing t t' with
  | done a => rfl
  | askToken id next ih =>
    simp only [on, htokens]
    cases t.tokens.tokens[id]? with
    | none => rfl
    | some token => exact ih token (hq token) hp hp' htokens
  | askNode id next ih =>
    simp only [on, NodeTree.made?, htokens]
    cases t.tokens.tokens[id]? with
    | none => rfl
    | some token =>
      simp only [Option.map_some]
      rw [hq.1 ⟨token.kind, t'.constraints id, t'.computed id⟩
        ⟨token.kind, t.constraints id, t.computed id⟩ rfl]
      exact ih _ (hq.2 _) hp hp' htokens
  | askChildren id next ih =>
    simp only [on, NodeTree.made?, htokens]
    cases t.tokens.tokens[id]? with
    | none => rfl
    | some token =>
      simp only [Option.map_some]
      rw [hp.childIds_eq, hp'.childIds_eq, htokens]
      rw [ih _ (hq _) (hp.keep id) (hp'.keep id) htokens]

/-- A safe query has an answer. -/
theorem Safe.exists_answer {q : Query K α} (hq : q.Safe t.tokens) (hp : t.Parsed) :
    ∃ a, (q.on t).value = some a := by
  induction q generalizing t with
  | done a => exact ⟨a, rfl⟩
  | askToken id next ih =>
    obtain ⟨token, htoken, hnext⟩ := hq
    simp only [on, htoken]
    exact ih token hnext hp
  | askNode id next ih =>
    obtain ⟨token, htoken, hnext⟩ := hq
    simp only [on, NodeTree.made?_of_token htoken]
    exact ih _ (hnext _ rfl) hp
  | askChildren id next ih =>
    obtain ⟨hid, hnext⟩ := hq
    obtain ⟨token, htoken⟩ := TokenTree.exists_token hid
    simp only [on, NodeTree.made?_of_token htoken, hp.childIds_eq]
    exact ih _ hnext (hp.keep id)

/-- A query that asks for kinds and children only is safe if it has an answer. -/
theorem Structural.safe {q : Query K α} (hq : q.Structural) (hp : t.Parsed) {a : α}
    (ha : (q.on t).value = some a) : q.Safe t.tokens := by
  induction q generalizing t with
  | done a => trivial
  | askToken id next ih =>
    simp only [on] at ha
    cases htoken : t.tokens.tokens[id]? with
    | none =>
      rw [htoken] at ha
      cases ha
    | some token =>
      rw [htoken] at ha
      exact ⟨token, htoken, ih token (hq token) hp ha⟩
  | askNode id next ih =>
    simp only [on] at ha
    cases htoken : t.tokens.tokens[id]? with
    | none =>
      rw [NodeTree.made?, htoken] at ha
      cases ha
    | some token =>
      rw [NodeTree.made?_of_token htoken] at ha
      refine ⟨token, htoken, fun made hmade => ?_⟩
      rw [hq.1 made ⟨token.kind, t.constraints id, t.computed id⟩ hmade]
      exact ih _ (hq.2 _) hp ha
  | askChildren id next ih =>
    simp only [on] at ha
    cases htoken : t.tokens.tokens[id]? with
    | none =>
      rw [NodeTree.made?, htoken] at ha
      cases ha
    | some token =>
      rw [NodeTree.made?_of_token htoken, hp.childIds_eq] at ha
      have hnext := ih _ (hq _) (hp.keep id) ha
      exact ⟨TokenTree.lt_size htoken, hnext⟩


end

end Query

end Bracketry
