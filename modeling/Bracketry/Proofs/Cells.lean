import Bracketry.Proofs.Kinship
import Bracketry.Tree.Cells

/-!
# Cells that hold a tree

A node that is made on first access is in its cell or will be put there, and so are its children.
What is not there yet counts as what would be put there, so cells hold a tree whatever of it was
asked for.

* `Cells.Holds`: the cells hold a tree if every node, made or not, is the one of the tree.
* `Cells.Holds.node`: making a node does not show.
* `Cells.Holds.children`, `Cells.Holds.configure`: computed children and a configuration show as
  they do in the tree.
-/

namespace Bracketry

variable {K : Type}

/-! ## Numbers that tokens know -/

/-- The numbers that a token knows are those of tokens. -/
structure TokenTree.Closed (t : TokenTree K) : Prop where
  level : ∀ (i : Nat) (token : Token K) (target : Nat), t.tokens[i]? = some token →
    token.level.bind Level.token = some target → target < t.size
  child : ∀ i j, j ∈ NodeTree.project t i → j < t.size
  parent : ∀ (i : Nat) (token : Token K) (p : Nat), t.tokens[i]? = some token →
    token.parent = some p → p < i

/-- The token of a number that is in use. -/
theorem TokenTree.exists_token {t : TokenTree K} {i : Nat} (h : i < t.size) :
    ∃ token, t.tokens[i]? = some token :=
  ⟨_, Array.getElem?_eq_getElem h⟩

theorem TokenTree.lt_size {t : TokenTree K} {i : Nat} {token : Token K}
    (h : t.tokens[i]? = some token) : i < t.size :=
  (Array.getElem?_eq_some_iff.1 h).1

theorem TokenTree.Drawn.closed {rules : Ruleset K} {t : TokenTree K} {o : Outline K}
    (h : t.Drawn rules o) : t.Closed := by
  refine ⟨?_, ?_, fun i token p hi hp => h.parent_lt hi hp⟩
  · intro i token target hi htarget
    obtain ⟨c, hc, rfl⟩ := h.token_stands hi
    cases hc with
    | @own site hs =>
      obtain ⟨segment, parent, start, id, next⟩ := site
      cases segment with
      | literal plain swallowed => cases htarget
      | tag tag content closing => cases htarget
      | nest tag seed first siblings closing =>
        -- the level of a tag is its group
        cases htarget
        exact lt_size (h.getElem?_eq (.group hs))
    | seed hs => cases htarget
    | @group tag seed closing first siblings parent start id next hs =>
      have hab := Site.abut_nest tag seed closing first siblings parent start id next
      rw [Course.token_group _ _ hab] at htarget
      cases htarget
    | root ho =>
      rw [Course.token_group _ none o.abut_sites] at htarget
      cases htarget
  · intro i j hj
    cases hi : t.tokens[i]? with
    | none =>
      rw [NodeTree.project, hi] at hj
      cases hj
    | some token =>
      obtain ⟨child, hchild, -⟩ := h.child hi hj
      exact lt_size hchild

/-! ## Cells and trees -/

namespace Cells

/-- The node that is in a cell, or that would be made. -/
def found? (c : Cells K) (id : Nat) : Option (MadeNode K) :=
  c.nodes[id]?.bind fun cell => cell.or (c.create id)

end Cells

/-- A node of a tree, as it would be in its cell. -/
def NodeTree.made? (t : NodeTree K) (id : Nat) : Option (MadeNode K) :=
  t.tokens.tokens[id]?.map fun token => ⟨token.kind, t.constraints id, t.computed id⟩

/-- The cells hold a tree: every node in its cell, and every node that would be made, is the one
of the tree. -/
structure Cells.Holds (c : Cells K) (t : NodeTree K) : Prop where
  tokens : c.tokens = t.tokens
  size : c.nodes.size = t.tokens.size
  found : ∀ id, c.found? id = t.made? id

namespace NodeTree

variable {t : NodeTree K}

theorem made?_eq_some {id : Nat} {made : MadeNode K} (h : t.made? id = some made) :
    ∃ token, t.tokens.tokens[id]? = some token ∧ made.kind = token.kind ∧
      made.constraints = t.constraints id ∧ made.children = t.computed id := by
  obtain ⟨token, htoken, rfl⟩ := Option.map_eq_some_iff.1 h
  exact ⟨token, htoken, rfl, rfl, rfl⟩

theorem made?_of_token {id : Nat} {token : Token K} (h : t.tokens.tokens[id]? = some token) :
    t.made? id = some ⟨token.kind, t.constraints id, t.computed id⟩ := by
  unfold made?
  rw [h]
  rfl

theorem node?_of_token {id : Nat} {token : Token K} (h : t.tokens.tokens[id]? = some token) :
    t.node? id = some ⟨t, id, token⟩ := by
  unfold node?
  rw [h]
  rfl

/-- Every token has a state. -/
def Sized (t : NodeTree K) : Prop := t.states.size = t.tokens.size

theorem Sized.foldl_keep (ids : List Nat) (h : t.Sized) : (ids.foldl NodeTree.keep t).Sized := by
  induction ids generalizing t with
  | nil => exact h
  | cons id ids ih =>
    apply ih
    unfold Sized keep
    rw [Array.size_modify]
    exact h

theorem Parsed.sized [DecidableEq K] [Taxonomy K] (h : t.Parsed) : t.Sized := by
  induction h with
  | scan constraints _ =>
    unfold Sized ofTokens
    rw [Array.size_map]
    rfl
  | after look _ ih => exact ih.foldl_keep look.asked
  | setConstraints id c _ ih =>
    unfold Sized NodeTree.setConstraints
    rw [Array.size_modify]
    exact ih

theorem Parsed.keep [DecidableEq K] [Taxonomy K] (h : t.Parsed) (id : Nat) : (t.keep id).Parsed :=
  h.after ⟨(), [id]⟩

theorem Parsed.closed [DecidableEq K] [Taxonomy K] (h : t.Parsed) : t.tokens.Closed := by
  obtain ⟨rules, o, hd⟩ := h.exists_drawn
  exact hd.closed

/-- Changing the state of a node shows in that node only. -/
theorem made?_modify (h : t.Sized) (id j : Nat) (f : NodeState K → NodeState K) :
    NodeTree.made? { t with states := t.states.modify id f } j =
      if j = id then (t.made? j).map fun made =>
        let s := f ⟨made.constraints, made.children⟩
        { made with constraints := s.constraints, children := s.children }
      else t.made? j := by
  unfold made? constraints computed
  simp only [Array.getElem?_modify]
  by_cases hj : j = id
  · subst hj
    rw [if_pos rfl, if_pos rfl]
    cases ht : t.tokens.tokens[j]? with
    | none => rfl
    | some token =>
      have hlt : j < t.states.size := h ▸ TokenTree.lt_size ht
      rw [Array.getElem?_eq_getElem hlt]
      rfl
  · rw [if_neg hj, if_neg (Ne.symm hj)]

theorem made?_keep (h : t.Sized) (id j : Nat) :
    (t.keep id).made? j =
      if j = id then (t.made? j).map fun made =>
        { made with children := some (made.children.getD (project t.tokens id)) }
      else t.made? j :=
  made?_modify h id j _

theorem made?_setConstraints (h : t.Sized) (id j : Nat) (c : Option (Constraints K)) :
    (t.setConstraints id c).made? j =
      if j = id then (t.made? j).map fun made => { made with constraints := c } else t.made? j :=
  made?_modify h id j _

end NodeTree

namespace Cells

variable {c : Cells K} {t : NodeTree K}

/-- Before any node is made, the cells hold the tree of the tokens. -/
theorem holds_fresh (strict : K → Option (Constraints K)) (tokens : TokenTree K) :
    (fresh strict tokens).Holds (NodeTree.ofTokens strict tokens) := by
  refine ⟨rfl, Array.size_replicate, ?_⟩
  intro id
  unfold found? create NodeTree.made? NodeTree.constraints NodeTree.computed NodeTree.ofTokens fresh
  cases ht : tokens.tokens[id]? with
  | none =>
    have hge := Array.getElem?_eq_none_iff.1 ht
    simp [TokenTree.size, hge]
  | some token =>
    have hlt := TokenTree.lt_size ht
    simp [ht, hlt]

/-- A node that is put into a cell is found there, and the other cells are as before. -/
theorem found?_put {id : Nat} (h : id < c.nodes.size) (made : MadeNode K) (j : Nat) :
    (c.put id made).found? j = if j = id then some made else c.found? j := by
  unfold found? put create
  dsimp only
  by_cases hj : j = id
  · subst hj
    rw [if_pos rfl, Array.getElem?_setIfInBounds_self_of_lt h]
    rfl
  · rw [if_neg hj, Array.getElem?_setIfInBounds_ne (Ne.symm hj)]

/-- Putting what is there changes nothing. -/
theorem put_self {id : Nat} {made : MadeNode K} (h : c.nodes[id]? = some (some made)) :
    c.put id made = c := by
  obtain ⟨hlt, hmade⟩ := Array.getElem?_eq_some_iff.1 h
  have hset : c.nodes.setIfInBounds id (some made) = c.nodes := by
    rw [← hmade, Array.setIfInBounds, dif_pos hlt, Array.set_getElem_self]
  unfold put
  rw [hset]

/-- **Asking for a node leaves it in its cell.** -/
theorem run_node (id : Nat) :
    (node id).run c = (c.found? id).map fun made => (made, c.put id made) := by
  unfold node found?
  cases hcell : c.nodes[id]? with
  | none => simp [StateT.run_bind, hcell]
  | some cell =>
    cases cell with
    | none =>
      cases hcreate : c.create id with
      | none => simp [hcell, hcreate]
      | some made => simp [hcell, hcreate]
    | some made => simp [hcell, put_self hcell]

/-- The children are computed as the tree has them. Every number that is needed on the way is that
of a token. -/
theorem compute_eq {tokens : TokenTree K} (hclosed : tokens.Closed) {id : Nat} {token : Token K}
    (h : tokens.tokens[id]? = some token) : compute tokens id = some (NodeTree.project tokens id) := by
  unfold compute NodeTree.project
  rw [h]
  cases hlevel : token.level.bind Level.token with
  | none =>
    by_cases hgroup : token.isGroup
    · simp [held, h, hlevel, hgroup]
    · simp [hlevel, hgroup]
  | some target =>
    obtain ⟨targetToken, htarget⟩ := TokenTree.exists_token (hclosed.level id token target h hlevel)
    simp [held, NodeTree.members, hlevel, htarget]

/-- Putting a node where a tree has it makes the cells hold that tree, if it is the same otherwise. -/
theorem Holds.put {t' : NodeTree K} (h : c.Holds t) {id : Nat} {made : MadeNode K}
    (hid : id < t.tokens.size) (htokens : t'.tokens = t.tokens)
    (hmade : ∀ j, t'.made? j = if j = id then some made else t.made? j) : (c.put id made).Holds t' := by
  have hlt : id < c.nodes.size := h.size ▸ hid
  refine ⟨h.tokens.trans htokens.symm, ?_, ?_⟩
  · unfold Cells.put
    rw [Array.size_setIfInBounds, h.size, htokens]
  · intro j
    rw [found?_put hlt, hmade, h.found]

/-- **Making a node does not show.** -/
theorem Holds.node (h : c.Holds t) {id : Nat} {made : MadeNode K} (hmade : t.made? id = some made) :
    (Cells.node id).run c = some (made, c.put id made) ∧ (c.put id made).Holds t := by
  obtain ⟨token, htoken, -⟩ := NodeTree.made?_eq_some hmade
  refine ⟨?_, h.put (TokenTree.lt_size htoken) rfl ?_⟩
  · rw [run_node, h.found, hmade]
    rfl
  · intro j
    by_cases hj : j = id
    · rw [if_pos hj, hj, hmade]
    · rw [if_neg hj]

/-- There is no node without a token. -/
theorem Holds.node_none (h : c.Holds t) {id : Nat} (hmade : t.made? id = none) :
    (Cells.node id).run c = none := by
  rw [run_node, h.found, hmade]
  rfl

/-- **Computed children show as they do in the tree,** which keeps them. -/
theorem Holds.children (h : c.Holds t) (hsized : t.Sized) (hclosed : t.tokens.Closed) {id : Nat}
    {made : MadeNode K} (hmade : t.made? id = some made) :
    ∃ c', (Cells.children id).run c = some (t.childIds id, c') ∧ c'.Holds (t.keep id) := by
  obtain ⟨token, htoken, -, -, hcomputed⟩ := NodeTree.made?_eq_some hmade
  obtain ⟨hnode, hholds⟩ := h.node hmade
  have hlt := TokenTree.lt_size htoken
  have hkept : ∀ j, (t.keep id).made? j =
      if j = id then some { made with children := some (t.childIds id) } else t.made? j := by
    intro j
    rw [NodeTree.made?_keep hsized, NodeTree.childIds, ← hcomputed]
    by_cases hj : j = id
    · rw [if_pos hj, if_pos hj, hj, hmade]
      rfl
    · rw [if_neg hj, if_neg hj]
  unfold NodeTree.childIds at hkept ⊢
  rw [← hcomputed] at hkept ⊢
  cases hc : made.children with
  | some ids =>
    rw [hc] at hkept
    refine ⟨c.put id made, by simp [Cells.children, hnode, hc], h.put hlt rfl ?_⟩
    intro j
    rw [hkept, Option.getD_some, ← hc]
  | none =>
    rw [hc] at hkept
    have hcompute : compute (c.put id made).tokens id = some (NodeTree.project t.tokens id) := by
      rw [hholds.tokens]
      exact compute_eq hclosed htoken
    refine ⟨_, ?_, hholds.put hlt rfl hkept⟩
    simp [Cells.children, hnode, hc, hcompute]

/-- Without a token there is no child list. -/
theorem Holds.children_none (h : c.Holds t) {id : Nat} (hmade : t.made? id = none) :
    (Cells.children id).run c = none := by
  simp [Cells.children, h.node_none hmade]

/-- **A configuration shows as it does in the tree,** made before or not. -/
theorem Holds.configure (h : c.Holds t) (hsized : t.Sized) (id : Nat)
    (change : Option (Constraints K) → Option (Constraints K)) :
    ∃ c', (Cells.configure id change).run c = some ((), c') ∧
      c'.Holds (t.setConstraints id (change (t.constraints id))) := by
  cases hmade : t.made? id with
  | none =>
    have htoken : t.tokens.tokens[id]? = none := Option.map_eq_none_iff.1 hmade
    have hcell : c.nodes[id]? = none := by
      rw [Array.getElem?_eq_none_iff] at htoken ⊢
      rw [h.size]
      exact htoken
    refine ⟨c, by simp [Cells.configure, hcell], h.tokens, h.size, fun j => ?_⟩
    rw [NodeTree.made?_setConstraints hsized, h.found]
    by_cases hj : j = id
    · rw [if_pos hj, hj, hmade]
      rfl
    · rw [if_neg hj]
  | some made =>
    obtain ⟨token, htoken, -, hconstraints, -⟩ := NodeTree.made?_eq_some hmade
    have hlt := TokenTree.lt_size htoken
    refine ⟨c.put id { made with constraints := change made.constraints }, ?_, h.put hlt rfl ?_⟩
    · have hfound := (h.found id).trans hmade
      unfold found? at hfound
      cases hcell : c.nodes[id]? with
      | none =>
        rw [hcell] at hfound
        cases hfound
      | some cell =>
        rw [hcell] at hfound
        cases cell with
        | none =>
          have hcreate : c.create id = some made := hfound
          simp [Cells.configure, hcell, hcreate]
        | some made' =>
          obtain rfl : made' = made := Option.some.inj hfound
          simp [Cells.configure, hcell]
    · intro j
      rw [NodeTree.made?_setConstraints hsized, ← hconstraints]
      by_cases hj : j = id
      · rw [if_pos hj, if_pos hj, hj, hmade]
        rfl
      · rw [if_neg hj, if_neg hj]

end Cells

end Bracketry
