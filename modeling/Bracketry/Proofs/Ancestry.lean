import Bracketry.Proofs.Branches
import Bracketry.Proofs.Partition

/-!
# Parents and children

A token knows the tag that encloses it by number, and a node finds its children through
the level or the group of its token. The two links are set at different moments of a
scan. They agree: going down one step and going up one step are inverse, except that a
group is no step.

* `Outline.Stands.within`: what a tag encloses stands directly in its site.
* `Outline.Stands.parent_lt`: a tag is admitted before what it encloses.
* `NodeTree.Parsed.ancestors_child`: **a child is enclosed by the node that it is a
  child of and by what encloses that;** a group encloses nothing.
-/

namespace Bracketry

variable {K : Type}

/-! ## The parent of a token -/

/-- The number of the tag that encloses the token of a course. -/
def Course.parent : Course K → Option Nat
  | .tag _ _ parent _ _ _ _ _ _ => parent
  | .literal _ parent _ _ _ => parent
  | .seed _ parent _ => parent
  | .group _ parent _ _ => parent

theorem Token.parent_attach (t : Token K) (child : Nat) (span : Span) (emptyLiteral : Bool) :
    (t.attach child span emptyLiteral).parent = t.parent := by
  unfold attach
  cases emptyLiteral <;> cases t.variant <;> rfl

theorem Course.parent_token (c : Course K) : c.token.parent = c.parent := by
  cases c with
  | tag _ _ _ _ _ _ _ _ _ => rfl
  | literal _ _ _ _ _ => rfl
  | seed _ _ _ => rfl
  | group kind parent stream children =>
    have hfold : ∀ t : Token K,
        (children.foldl (fun t c => t.attach c.id c.span c.emptyLiteral) t).parent = t.parent := by
      induction children with
      | nil => intro t; rfl
      | cons c rest ih => intro t; rw [List.foldl_cons, ih, Token.parent_attach]
    exact hfold _

/-! ## Numbers grow inwards -/

theorem Site.of_mem_row {parent : Option Nat} {start next : Nat} {segments : List (Segment K)}
    {site : Site K} (h : site ∈ row parent start next segments) :
    site.parent = parent ∧ next ≤ site.id ∧ site.next = site.id + 1 := by
  induction segments generalizing start next with
  | nil => cases h
  | cons s rest ih =>
    rcases List.mem_cons.1 h with rfl | h
    · exact ⟨rfl, Nat.le_refl _, rfl⟩
    · obtain ⟨hparent, hid, hnext⟩ := ih h
      exact ⟨hparent, by omega, hnext⟩

/-- The token of a site is enclosed by what encloses the site. -/
theorem Site.parent_own (l : Layout K) (site : Site K) :
    (site.own l).token.parent = site.parent := by
  obtain ⟨segment, parent, start, id, next⟩ := site
  cases segment <;> rfl

/-- The parts of a site are enclosed by it. -/
theorem Site.parent_part {outer site : Site K} (h : site ∈ outer.parts) :
    site.parent = some outer.id := by
  obtain ⟨segment, parent, start, id, next⟩ := outer
  cases segment with
  | literal plain swallowed => cases h
  | tag t content closing => cases h
  | nest t seed first siblings closing =>
    rcases List.mem_cons.1 h with rfl | h
    · rfl
    · exact (of_mem_row h).1

/-- A course stands directly in a site under a number: that of a part, or the seed or the group of
the parts. -/
inductive Site.Within (l : Layout K) : Site K → Nat → Course K → Prop
  | part {outer site : Site K} : site ∈ outer.parts → Within l outer site.id (site.own l)
  | seed {t : Tag K} {seed closing : Text} {first : Segment K} {siblings : List (Segment K)}
      {parent : Option Nat} {start id next : Nat} :
      Within l ⟨.nest t seed first siblings closing, parent, start, id, next⟩ (next + 1)
        (.seed l.literalKind (some id) (Segment.spanAt (start + Text.bytes t.opening) seed))
  | group {t : Tag K} {seed closing : Text} {first : Segment K} {siblings : List (Segment K)}
      {parent : Option Nat} {start id next : Nat} :
      Within l ⟨.nest t seed first siblings closing, parent, start, id, next⟩ (next + 2)
        (.group l.groupKind (some id) ⟨start + Text.bytes t.opening, l.stop⟩
          (⟨next + 1, Segment.spanAt (start + Text.bytes t.opening) seed, seed.isEmpty⟩ ::
            (Site.parts ⟨.nest t seed first siblings closing, parent, start, id, next⟩).map Site.child))

namespace Outline

variable {o : Outline K} {l : Layout K}

/-- The sites of the outermost level are enclosed by nothing. -/
theorem parent_top {site : Site K} (h : site ∈ o.sites) : site.parent = none := by
  cases o with
  | single s => exact (Site.of_mem_row h).1
  | series first second more =>
    rcases List.mem_append.1 h with h | h
    · exact (Site.of_mem_row h).1
    · exact (Site.of_mem_row h).1

/-- A site is admitted after the tag that encloses it and before what is inside it. -/
theorem Sited.id_lt {site : Site K} (h : o.Sited site) :
    site.id < site.next ∧ ∀ p, site.parent = some p → p < site.id := by
  induction h with
  | @top site hs =>
    have hnext : site.next = site.id + 1 := by
      cases o with
      | single s => exact (Site.of_mem_row hs).2.2
      | series first second more =>
        rcases List.mem_append.1 hs with hs | hs
        · exact (Site.of_mem_row hs).2.2
        · exact (Site.of_mem_row hs).2.2
    rw [parent_top hs]
    exact ⟨by omega, fun p hp => by cases hp⟩
  | @part outer site _ hs ih =>
    have hid : outer.next ≤ site.id ∧ site.id < site.next := by
      obtain ⟨segment, parent, start, id, next⟩ := outer
      cases segment with
      | literal plain swallowed => cases hs
      | tag t content closing => cases hs
      | nest t seed first siblings closing =>
        rcases List.mem_cons.1 hs with rfl | hs
        · exact ⟨Nat.le_refl next, Nat.lt_add_of_pos_right (by decide)⟩
        · obtain ⟨-, hge, hnext⟩ := Site.of_mem_row hs
          exact ⟨Nat.le_trans (by dsimp only; omega) hge, by omega⟩
    have hlt := ih.1
    refine ⟨hid.2, fun p hp => ?_⟩
    rw [Site.parent_part hs] at hp
    cases hp
    omega

/-- **What a tag encloses stands directly in its site.** -/
theorem Stands.within {i j : Nat} {c : Course K} (h : o.Stands l j c)
    (hp : c.token.parent = some i) : ∃ outer, o.Sited outer ∧ outer.id = i ∧ outer.Within l j c := by
  cases h with
  | @own site hs =>
    rw [Site.parent_own] at hp
    cases hs with
    | top hmem =>
      rw [parent_top hmem] at hp
      cases hp
    | @part outer _ houter hmem =>
      rw [Site.parent_part hmem] at hp
      cases hp
      exact ⟨outer, houter, rfl, .part hmem⟩
  | seed hs =>
    cases hp
    exact ⟨_, hs, rfl, .seed⟩
  | group hs =>
    rw [Course.parent_token] at hp
    cases hp
    exact ⟨_, hs, rfl, .group⟩
  | root _ =>
    rw [Course.parent_token] at hp
    cases hp

/-- **A tag is admitted before what it encloses.** -/
theorem Stands.parent_lt {i p : Nat} {c : Course K} (h : o.Stands l i c)
    (hp : c.token.parent = some p) : p < i := by
  obtain ⟨outer, houter, rfl, hwithin⟩ := h.within hp
  have hlt := houter.id_lt.1
  cases hwithin with
  | part hmem => exact (Sited.part houter hmem).id_lt.2 _ (Site.parent_part hmem)
  | seed =>
    dsimp only at hlt ⊢
    omega
  | group =>
    dsimp only at hlt ⊢
    omega

end Outline

/-! ## Children of tokens -/

/-- What a tag or a group keeps are the children that it took in, without empty literals. -/
theorem mem_kept {children : List Child} {j : Nat} :
    j ∈ kept children ↔ ∃ c ∈ children, c.emptyLiteral = false ∧ c.id = j := by
  unfold kept
  simp only [List.mem_map, List.mem_filter, Bool.not_eq_true', and_assoc]

namespace TokenTree.Drawn

variable {rules : Ruleset K} {t : TokenTree K} {o : Outline K}

/-- A site that a group takes in is no group, and its token is enclosed by what encloses
the site. -/
theorem token_site (h : t.Drawn rules o) {site : Site K} (hs : o.Sited site) :
    ∃ child, t.tokens[site.id]? = some child ∧ child.isGroup = false ∧
      child.parent = site.parent :=
  ⟨_, h.getElem?_eq (.own hs), isGroup_own _ site, Site.parent_own _ site⟩

section Nest

variable {tag : Tag K} {seed closing : Text} {first : Segment K} {siblings : List (Segment K)}
  {parent : Option Nat} {start id next : Nat}

/-- What is kept of the seed and the parts of a tag is enclosed by the tag. -/
theorem token_kept (h : t.Drawn rules o)
    (hs : o.Sited ⟨.nest tag seed first siblings closing, parent, start, id, next⟩) {j : Nat}
    (hj : j ∈ kept (⟨next + 1, Segment.spanAt (start + Text.bytes tag.opening) seed, seed.isEmpty⟩ ::
      (Site.parts ⟨.nest tag seed first siblings closing, parent, start, id, next⟩).map
        Site.child)) :
    ∃ child, t.tokens[j]? = some child ∧ child.isGroup = false ∧ child.parent = some id := by
  obtain ⟨c, hc, -, rfl⟩ := mem_kept.1 hj
  rcases List.mem_cons.1 hc with rfl | hc
  · exact ⟨_, h.getElem?_eq (.seed hs), rfl, rfl⟩
  · obtain ⟨site, hmem, rfl⟩ := List.mem_map.1 hc
    have hsite := h.token_site (.part hs hmem)
    rwa [Site.parent_part hmem] at hsite

end Nest

/-- **A child is enclosed by the token that it is a child of,** or by what encloses that
if it is a group. No child is a group. -/
theorem child (h : t.Drawn rules o) {i j : Nat} {token : Token K}
    (hi : t.tokens[i]? = some token) (hj : j ∈ NodeTree.project t i) :
    ∃ child, t.tokens[j]? = some child ∧ child.isGroup = false ∧
      child.parent = if token.isGroup then token.parent else some i := by
  obtain ⟨c, hc, rfl⟩ := h.token_stands hi
  cases hc with
  | @own site hs =>
    rw [isGroup_own]
    obtain ⟨segment, parent, start, id, next⟩ := site
    cases segment with
    | literal plain swallowed =>
      simp only [NodeTree.project, hi] at hj
      cases hj
    | tag tag content closing =>
      simp only [NodeTree.project, hi] at hj
      cases hj
    | nest tag seed first siblings closing =>
      rw [h.project_nest hs] at hj
      exact h.token_kept hs hj
  | seed hs =>
    rw [h.project_seed hs] at hj
    cases hj
  | @group tag seed closing first siblings parent start id next hs =>
    have hab := Site.abut_nest tag seed closing first siblings parent start id next
    rw [NodeTree.project, hi, Course.token_group _ _ hab] at hj
    rw [Course.token_group _ _ hab]
    exact h.token_kept hs hj
  | root ho =>
    rw [h.project_root ho] at hj
    rw [Course.token_group _ none o.abut_sites]
    obtain ⟨c, hc, -, rfl⟩ := mem_kept.1 hj
    obtain ⟨site, hmem, rfl⟩ := List.mem_map.1 hc
    have hsite := h.token_site (.top hmem)
    rwa [Outline.parent_top hmem] at hsite

/-- Nothing encloses the root. -/
theorem parent_root (h : t.Drawn rules o) : t.rootToken.parent = none := by
  cases o with
  | single s =>
    have hs : (Outline.single s).Sited ⟨s, none, 0, 0, 1⟩ := .top List.mem_cons_self
    rw [h.rootToken_eq (.own hs)]
    cases s <;> rfl
  | series first second more =>
    rw [h.rootToken_eq (.root rfl), Course.parent_token]
    rfl

theorem parent_lt (h : t.Drawn rules o) {i p : Nat} {token : Token K}
    (hi : t.tokens[i]? = some token) (hp : token.parent = some p) : p < i := by
  obtain ⟨c, hc, rfl⟩ := h.token_stands hi
  exact hc.parent_lt hp

end TokenTree.Drawn

/-! ## Nodes of a parsed tree -/

/-- A node has the token of its number. -/
def Node.Genuine (n : Node K) : Prop := n.tree.node? n.id = some n

namespace NodeTree

variable {t : NodeTree K}

theorem node?_eq_some {i : Nat} {n : Node K} (h : t.node? i = some n) :
    n.tree = t ∧ n.id = i ∧ t.tokens.tokens[i]? = some n.token := by
  unfold node? at h
  cases ht : t.tokens.tokens[i]? with
  | none => rw [ht] at h; cases h
  | some token => rw [ht] at h; cases h; exact ⟨rfl, rfl, rfl⟩

theorem genuine_of_node? {i : Nat} {n : Node K} (h : t.node? i = some n) : n.Genuine := by
  obtain ⟨rfl, rfl, -⟩ := node?_eq_some h
  exact h

theorem genuine_root (t : NodeTree K) : t.root.Genuine := by
  have hroot : t.tokens.tokens[t.tokens.root]? = some t.tokens.rootToken :=
    Array.getElem?_eq_getElem t.tokens.root_lt
  simp only [Node.Genuine, root, node?, hroot, Option.map_some]

/-- Going up from a number ends before the bound, because parents have smaller numbers. -/
theorem climb_eq_climb (hlt : ∀ (i : Nat) (token : Token K) (p : Nat),
    t.tokens.tokens[i]? = some token → token.parent = some p → p < i) {n m : Nat} {next : Option Nat}
    (hn : ∀ p, next = some p → p < n) (hm : ∀ p, next = some p → p < m) :
    t.climb n next = t.climb m next := by
  induction n generalizing m next with
  | zero =>
    cases next with
    | none => cases m <;> rfl
    | some p => exact absurd (hn p rfl) (Nat.not_lt_zero p)
  | succ n ih =>
    cases next with
    | none => cases m <;> rfl
    | some p =>
      have hpn := hn p rfl
      have hpm := hm p rfl
      cases m with
      | zero => exact absurd hpm (Nat.not_lt_zero p)
      | succ m =>
        have hup : ∀ q, t.tokens.tokens[p]?.bind Token.parent = some q → q < p := by
          intro q hq
          obtain ⟨token, htoken, hparent⟩ := Option.bind_eq_some_iff.1 hq
          exact hlt p token q htoken hparent
        rw [climb, climb, ih (fun q hq => ?_) (fun q hq => ?_)]
        · have := hup q hq
          omega
        · have := hup q hq
          omega

/-- A node without a parent is enclosed by nothing. -/
theorem ancestors_eq_nil {n : Node K} (h : n.token.parent = none) : n.ancestors = [] := by
  rw [Node.ancestors, h]
  cases n.tree.tokens.size <;> rfl

/-- A node is enclosed by its parent and by what encloses that. -/
theorem ancestors_eq_cons {rules : Ruleset K} {o : Outline K} {n m : Node K}
    (hd : n.tree.tokens.Drawn rules o) (hn : n.Genuine) (htree : m.tree = n.tree)
    (hparent : m.token.parent = some n.id) : m.ancestors = n :: n.ancestors := by
  have htoken := (node?_eq_some hn).2.2
  rw [Node.ancestors, Node.ancestors, htree, hparent]
  obtain ⟨hlt, -⟩ := Array.getElem?_eq_some_iff.1 htoken
  obtain ⟨size, hsize⟩ : ∃ size, n.tree.tokens.size = size + 1 :=
    ⟨n.tree.tokens.size - 1, by unfold TokenTree.size; omega⟩
  have hup : ∀ p, n.token.parent = some p → p < n.id := fun p hp => hd.parent_lt htoken hp
  -- the climb from below passes the node and has one step less to go on
  have hclimb : n.tree.climb size n.token.parent = n.tree.climb (size + 1) n.token.parent := by
    unfold TokenTree.size at hsize
    apply climb_eq_climb fun _ _ _ => hd.parent_lt
    · intro p hp
      have := hup p hp
      omega
    · intro p hp
      have := hup p hp
      omega
  rw [hsize, climb, htoken, Option.bind_some, hclimb, List.filterMap_cons_some hn]

variable [DecidableEq K] [Taxonomy K]

namespace Parsed

variable {n m : Node K}

/-- The children of a node are nodes of its tree and no groups. -/
theorem child (h : n.tree.Parsed) (hn : n.Genuine) (hm : m ∈ n.children.value) :
    m.tree = n.tree ∧ m.Genuine ∧ m.isGroup = false ∧
      m.token.parent = if n.isGroup then n.token.parent else some n.id := by
  obtain ⟨j, hj, hmj⟩ := List.mem_filterMap.1 hm
  obtain ⟨htree, -, htoken⟩ := node?_eq_some hmj
  obtain ⟨rules, o, hd⟩ := h.exists_drawn
  rw [h.childIds_eq] at hj
  obtain ⟨child, hchild, hgroup, hparent⟩ := hd.child (node?_eq_some hn).2.2 hj
  rw [htoken] at hchild
  cases hchild
  exact ⟨htree, genuine_of_node? hmj, hgroup, hparent⟩

/-- The numbers of the children are those of the child nodes. -/
theorem childIds_eq_map (h : n.tree.Parsed) (hn : n.Genuine) :
    n.tree.childIds n.id = n.children.value.map Node.id := by
  obtain ⟨rules, o, hd⟩ := h.exists_drawn
  have hall : ∀ j ∈ n.tree.childIds n.id, ∃ m, n.tree.node? j = some m := by
    intro j hj
    rw [h.childIds_eq] at hj
    obtain ⟨child, hchild, -, -⟩ := hd.child (node?_eq_some hn).2.2 hj
    rw [node?, hchild]
    exact ⟨_, rfl⟩
  simp only [Node.children]
  generalize n.tree.childIds n.id = ids at hall ⊢
  induction ids with
  | nil => rfl
  | cons j rest ih =>
    obtain ⟨⟨m, hm⟩, hrest⟩ := List.forall_mem_cons.1 hall
    rw [List.filterMap_cons_some hm, List.map_cons, ← ih hrest, (node?_eq_some hm).2.1]

/-- **A child is enclosed by the node that it is a child of and by what encloses that.**
A group encloses nothing. -/
theorem ancestors_child (h : n.tree.Parsed) (hn : n.Genuine) (hm : m ∈ n.children.value) :
    m.ancestors = if n.isGroup then n.ancestors else n :: n.ancestors := by
  obtain ⟨htree, -, -, hparent⟩ := child h hn hm
  cases hg : n.isGroup with
  | true =>
    rw [if_pos hg] at hparent
    rw [if_pos rfl, Node.ancestors, Node.ancestors, htree, hparent]
  | false =>
    rw [if_neg (by simp [hg])] at hparent
    rw [if_neg (by simp)]
    obtain ⟨rules, o, hd⟩ := h.exists_drawn
    exact ancestors_eq_cons hd hn htree hparent

/-- The nodes of the outermost level are enclosed by nothing. -/
theorem ancestors_root (h : t.Parsed) : t.root.ancestors = [] := by
  obtain ⟨rules, o, hd⟩ := h.exists_drawn
  exact ancestors_eq_nil hd.parent_root

end Parsed

end NodeTree

end Bracketry
