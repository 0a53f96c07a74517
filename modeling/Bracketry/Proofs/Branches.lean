import Bracketry.Proofs.Spans
import Bracketry.Tree.Node

/-!
# The branches of a parsed tree

A node with everything below it, as a finite tree. Nodes point at their children by
number, and nothing in their type says that going down ends. In a parsed tree it
does, because a tag holds only what was read inside it.

* `Branch.Grows.unique`: a node has at most one branch.
* `NodeTree.Parsed.childIds_eq`: what was looked at before does not change the
  children of a node.
* `NodeTree.Parsed.exists_branch`: **in a parsed tree the root has a branch, with no
  more nodes than there are tokens.**
-/

namespace Bracketry

variable {K : Type}

/-- A node and the branches of its children. -/
inductive Branch (K : Type)
  | node (head : Node K) (branches : List (Branch K))

namespace Branch

def head : Branch K → Node K
  | .node head _ => head

def branches : Branch K → List (Branch K)
  | .node _ branches => branches

/-- The number of nodes of a branch. -/
def size : Branch K → Nat
  | .node _ branches => 1 + sizes branches
where
  sizes : List (Branch K) → Nat
    | [] => 0
    | b :: rest => b.size + sizes rest

/-- The nodes of a branch, each before those below it. -/
def preorder : Branch K → List (Node K)
  | .node head branches => head :: preorders branches
where
  preorders : List (Branch K) → List (Node K)
    | [] => []
    | b :: rest => b.preorder ++ preorders rest

/-- Everywhere in a branch, the branches of a node are those of its children. -/
inductive Grows : Branch K → Prop
  | node {head : Node K} {branches : List (Branch K)} :
      branches.map Branch.head = head.children.value → (∀ b ∈ branches, Grows b) →
      Grows (.node head branches)

mutual

/-- **A node has at most one branch.** -/
theorem Grows.unique {b b' : Branch K} (hb : b.Grows) (hb' : b'.Grows) (h : b.head = b'.head) :
    b = b' := by
  -- equal nodes have equal children, and below them the branches are smaller
  cases b with
  | node n branches =>
    cases b' with
    | node n' branches' =>
      cases hb with
      | node hheads hall =>
        cases hb' with
        | node hheads' hall' =>
          have hn : n = n' := h
          subst hn
          rw [Grows.unique_all branches branches' hall hall' (hheads.trans hheads'.symm)]

theorem Grows.unique_all (branches branches' : List (Branch K)) (h : ∀ b ∈ branches, b.Grows)
    (h' : ∀ b ∈ branches', b.Grows) (heads : branches.map head = branches'.map head) :
    branches = branches' := by
  cases branches with
  | nil =>
    cases branches' with
    | nil => rfl
    | cons b' rest' => cases heads
  | cons b rest =>
    cases branches' with
    | nil => cases heads
    | cons b' rest' =>
      obtain ⟨hb, hrest⟩ := List.forall_mem_cons.1 h
      obtain ⟨hb', hrest'⟩ := List.forall_mem_cons.1 h'
      obtain ⟨hhead, hheads⟩ := List.cons.inj heads
      rw [Grows.unique hb hb' hhead, Grows.unique_all rest rest' hrest hrest' hheads]

end

end Branch

/-! ## Parsed trees -/

namespace NodeTree

/-- A tree that was parsed, after any looks at it and with any constraints. -/
inductive Parsed [DecidableEq K] [Taxonomy K] : NodeTree K → Prop
  | scan {rules : Ruleset K} {limits : Limits} {source : Text} {tokens : TokenTree K}
      (constraints : K → Option (Constraints K)) :
      TokenTree.scan rules limits source = .ok tokens → Parsed (ofTokens constraints tokens)
  | after {t : NodeTree K} {α : Type} (look : Look α) : Parsed t → Parsed (t.after look)
  | setConstraints {t : NodeTree K} (id : Nat) (c : Option (Constraints K)) :
      Parsed t → Parsed (t.setConstraints id c)

/-- The children that were computed are those that the tokens give. -/
def Faithful (t : NodeTree K) : Prop :=
  ∀ id children, t.computed id = some children → children = project t.tokens id

theorem Faithful.childIds_eq {t : NodeTree K} (h : t.Faithful) (id : Nat) :
    t.childIds id = project t.tokens id := by
  unfold childIds
  cases hc : t.computed id with
  | none => rfl
  | some children => exact h id children hc

theorem faithful_ofTokens (constraints : K → Option (Constraints K)) (tokens : TokenTree K) :
    (ofTokens constraints tokens).Faithful := by
  intro id children h
  simp only [computed, ofTokens, Array.getElem?_map] at h
  cases ht : tokens.tokens[id]? with
  | none => rw [ht] at h; cases h
  | some token => rw [ht] at h; cases h

/-- Changing the state of one node keeps a tree faithful if the children that the
node has then are those that the tokens give. -/
theorem Faithful.modify {t : NodeTree K} (h : t.Faithful) (id : Nat)
    (f : NodeState K → NodeState K)
    (hf : ∀ s, t.states[id]? = some s → ∀ children, (f s).children = some children →
      children = project t.tokens id) :
    Faithful { t with states := t.states.modify id f } := by
  intro j children hj
  simp only [computed, Array.getElem?_modify] at hj
  by_cases hid : id = j
  · subst hid
    rw [if_pos rfl] at hj
    cases hs : t.states[id]? with
    | none => rw [hs] at hj; cases hj
    | some s =>
      rw [hs] at hj
      exact hf s hs children hj
  · rw [if_neg hid] at hj
    exact h j children hj

theorem Faithful.keep {t : NodeTree K} (h : t.Faithful) (id : Nat) : (t.keep id).Faithful := by
  apply h.modify id
  intro s hs children hc
  obtain rfl := Option.some.inj hc
  cases hbefore : s.children with
  | none => rfl
  | some before =>
    have hcomputed : t.computed id = some before := by
      unfold computed
      rw [hs]
      exact hbefore
    exact h id before hcomputed

theorem Faithful.setConstraints {t : NodeTree K} (h : t.Faithful) (id : Nat)
    (c : Option (Constraints K)) : (t.setConstraints id c).Faithful := by
  apply h.modify id
  intro s hs children hc
  have hcomputed : t.computed id = some children := by
    unfold computed
    rw [hs]
    exact hc
  exact h id children hcomputed

theorem foldl_keep_tokens (ids : List Nat) (t : NodeTree K) :
    (ids.foldl NodeTree.keep t).tokens = t.tokens := by
  induction ids generalizing t with
  | nil => rfl
  | cons id ids ih => rw [List.foldl_cons, ih]; rfl

theorem Faithful.foldl_keep (ids : List Nat) {t : NodeTree K} (h : t.Faithful) :
    (ids.foldl NodeTree.keep t).Faithful := by
  induction ids generalizing t with
  | nil => exact h
  | cons id ids ih => exact ih (h.keep id)

variable [DecidableEq K] [Taxonomy K] {t : NodeTree K}

theorem Parsed.faithful (h : t.Parsed) : t.Faithful := by
  induction h with
  | scan constraints _ => exact faithful_ofTokens constraints _
  | after look _ ih => exact ih.foldl_keep look.asked
  | setConstraints id c _ ih => exact ih.setConstraints id c

/-- **What was looked at before does not change the children of a node.** -/
theorem Parsed.childIds_eq (h : t.Parsed) (id : Nat) : t.childIds id = project t.tokens id :=
  h.faithful.childIds_eq id

/-- The tokens of a parsed tree are those of an outline. -/
theorem Parsed.exists_drawn (h : t.Parsed) : ∃ rules o, t.tokens.Drawn rules o := by
  induction h with
  | @scan rules limits source tokens constraints hscan =>
    obtain ⟨-, o, hdrawn⟩ := TokenTree.scan_drawn hscan
    exact ⟨rules, o, hdrawn⟩
  | after look _ ih => rwa [NodeTree.after, foldl_keep_tokens]
  | setConstraints id c _ ih => exact ih

end NodeTree

/-! ## The branches of a parsed tree -/

/-- Some nodes have branches, with at most `room` nodes in them. -/
def Thrive (nodes : List (Node K)) (room : Nat) : Prop :=
  ∃ branches, branches.map Branch.head = nodes ∧ (∀ b ∈ branches, b.Grows) ∧
    Branch.size.sizes branches ≤ room

namespace Thrive

variable {nodes more : List (Node K)} {m n : Nat}

theorem nil (room : Nat) : Thrive ([] : List (Node K)) room :=
  ⟨[], rfl, fun _ hb => absurd hb List.not_mem_nil, Nat.zero_le room⟩

theorem mono (h : Thrive nodes m) (hmn : m ≤ n) : Thrive nodes n := by
  obtain ⟨branches, hheads, hgrow, hsize⟩ := h
  exact ⟨branches, hheads, hgrow, Nat.le_trans hsize hmn⟩

theorem sizes_append (bs bs' : List (Branch K)) :
    Branch.size.sizes (bs ++ bs') = Branch.size.sizes bs + Branch.size.sizes bs' := by
  induction bs with
  | nil => simp [Branch.size.sizes]
  | cons b rest ih => simp only [List.cons_append, Branch.size.sizes, ih, Nat.add_assoc]

theorem append (h : Thrive nodes m) (h' : Thrive more n) : Thrive (nodes ++ more) (m + n) := by
  obtain ⟨branches, hheads, hgrow, hsize⟩ := h
  obtain ⟨branches', hheads', hgrow', hsize'⟩ := h'
  refine ⟨branches ++ branches', ?_, List.forall_mem_append.2 ⟨hgrow, hgrow'⟩, ?_⟩
  · rw [List.map_append, hheads, hheads']
  · rw [sizes_append]
    omega

/-- A node has a branch if its children have branches. -/
theorem of_children {node : Node K} (h : Thrive node.children.value m) : Thrive [node] (m + 1) := by
  obtain ⟨branches, hheads, hgrow, hsize⟩ := h
  refine ⟨[.node node branches], rfl, ?_, ?_⟩
  · intro b hb
    obtain rfl := List.mem_singleton.1 hb
    exact .node hheads hgrow
  · simp only [Branch.size.sizes, Branch.size]
    omega

end Thrive

open TokenTree (layout Drawn)

variable {t : NodeTree K} {rules : Ruleset K} {o : Outline K}

/-- The node of a site. -/
def Site.node (t : NodeTree K) (l : Layout K) (site : Site K) : Node K :=
  ⟨t, site.id, (site.own l).token⟩

/-- The nodes of the sites that a group keeps. -/
def Site.nodes (t : NodeTree K) (l : Layout K) (sites : List (Site K)) : List (Node K) :=
  (sites.filter fun site => !site.segment.isEmptyLiteral).map (Site.node t l)

/-- The node of the seed of a tag, which starts at `start`. -/
def Site.seedNode (t : NodeTree K) (l : Layout K) (id start next : Nat) (seed : Text) : Node K :=
  ⟨t, next + 1, (Course.seed l.literalKind (some id) (Segment.spanAt start seed)).token⟩

theorem Site.filterMap_kept (hd : t.tokens.Drawn rules o) {sites : List (Site K)}
    (hs : ∀ site ∈ sites, o.Sited site) :
    (kept (sites.map Site.child)).filterMap t.node? =
      Site.nodes t (layout rules t.tokens.source) sites := by
  induction sites with
  | nil => rfl
  | cons site rest ih =>
    obtain ⟨hsite, hrest⟩ := List.forall_mem_cons.1 hs
    have hr := ih hrest
    have htoken := hd.getElem?_eq (.own hsite)
    cases he : site.segment.isEmptyLiteral with
    | true => simpa [kept, Site.nodes, Site.child, he] using hr
    | false =>
      simpa [kept, Site.nodes, Site.child, he, NodeTree.node?, htoken, Site.node] using hr

section Nest

variable {tokens : TokenTree K} {tag : Tag K} {seed closing : Text} {first : Segment K}
  {siblings : List (Segment K)} {parent : Option Nat} {start id next : Nat}

/-- A seed has no children. -/
theorem TokenTree.Drawn.project_seed (hd : tokens.Drawn rules o)
    (hs : o.Sited ⟨.nest tag seed first siblings closing, parent, start, id, next⟩) :
    NodeTree.project tokens (next + 1) = [] := by
  rw [NodeTree.project, hd.getElem?_eq (.seed hs)]
  rfl

/-- A tag with tags inside has the children that its group keeps. -/
theorem TokenTree.Drawn.project_nest (hd : tokens.Drawn rules o)
    (hs : o.Sited ⟨.nest tag seed first siblings closing, parent, start, id, next⟩) :
    NodeTree.project tokens id =
      kept (⟨next + 1, Segment.spanAt (start + Text.bytes tag.opening) seed, seed.isEmpty⟩ ::
        (Site.parts ⟨.nest tag seed first siblings closing, parent, start, id, next⟩).map
          Site.child) := by
  have htoken := hd.getElem?_eq (.own hs)
  have hgroup := hd.getElem?_eq (.group hs)
  have hab := Site.abut_nest tag seed closing first siblings parent start id next
  rw [Course.token_group _ _ hab] at hgroup
  have hproject : NodeTree.project tokens id = NodeTree.members tokens (next + 2) := by
    simp only [NodeTree.project, htoken]
    rfl
  rw [hproject, NodeTree.members, hgroup]
  rfl

end Nest

/-- The group at the root has the children that it keeps. -/
theorem TokenTree.Drawn.project_root {tokens : TokenTree K} (hd : tokens.Drawn rules o) {first second : Segment K}
    {more : List (Segment K)} (ho : o = .series first second more) :
    NodeTree.project tokens o.root = kept (o.sites.map Site.child) := by
  have hroot := hd.getElem?_eq (.root ho)
  rw [Course.token_group _ none o.abut_sites] at hroot
  rw [NodeTree.project, hroot]
  rfl

/-- A group keeps a site, or it leaves it out. -/
theorem Thrive.cons_site {l : Layout K} {site : Site K} {sites : List (Site K)} {m n : Nat}
    (h : Thrive [Site.node t l site] m) (hs : Thrive (Site.nodes t l sites) n) :
    Thrive (Site.nodes t l (site :: sites)) (m + n) := by
  unfold Site.nodes
  cases he : site.segment.isEmptyLiteral with
  | true =>
    rw [List.filter_cons_of_neg (by simp [he])]
    exact hs.mono (Nat.le_add_left n m)
  | false =>
    rw [List.filter_cons_of_pos (by simp [he])]
    exact h.append hs

theorem Site.nodes_append (t : NodeTree K) (l : Layout K) (sites more : List (Site K)) :
    Site.nodes t l (sites ++ more) = Site.nodes t l sites ++ Site.nodes t l more := by
  rw [Site.nodes, List.filter_append, List.map_append]
  rfl

/-- The root of a tree of a single segment is the node of that. -/
theorem TokenTree.Drawn.root_single {s : Segment K} (hd : t.tokens.Drawn rules (.single s)) :
    t.root = Site.node t (layout rules t.tokens.source) ⟨s, none, 0, 0, 1⟩ := by
  have hs : (Outline.single s).Sited ⟨s, none, 0, 0, 1⟩ := .top List.mem_cons_self
  rw [NodeTree.root, Site.node, hd.rootToken_eq (.own hs), hd.root]
  rfl

/-- There are as many tokens as courses. -/
theorem TokenTree.Drawn.size_eq {tokens : TokenTree K} (hd : tokens.Drawn rules o) :
    tokens.size = (o.courses (layout rules tokens.source)).length := by
  have hlen := congrArg List.length hd.tokens
  rwa [List.length_map, Array.length_toList] at hlen

section

variable [DecidableEq K] [Taxonomy K]

theorem NodeTree.Parsed.children_eq_nil (h : t.Parsed) {id : Nat} {token : Token K}
    (hproject : NodeTree.project t.tokens id = []) :
    (⟨t, id, token⟩ : Node K).children.value = [] := by
  simp only [Node.children, h.childIds_eq, hproject, List.filterMap_nil]

/-- A node without children has a branch. -/
theorem Thrive.leaf (h : t.Parsed) {id : Nat} {token : Token K}
    (hproject : NodeTree.project t.tokens id = []) : Thrive [(⟨t, id, token⟩ : Node K)] 1 := by
  apply Thrive.of_children
  rw [h.children_eq_nil hproject]
  exact .nil 0

/-- **The children of a tag with tags inside** are its seed, unless that is empty, and those of
its parts that a group keeps. -/
theorem Site.children_nest (h : t.Parsed) (hd : t.tokens.Drawn rules o) {tag : Tag K}
    {seed closing : Text} {first : Segment K} {siblings : List (Segment K)} {parent : Option Nat}
    {start id next : Nat}
    (hs : o.Sited ⟨.nest tag seed first siblings closing, parent, start, id, next⟩) :
    (Site.node t (layout rules t.tokens.source)
      ⟨.nest tag seed first siblings closing, parent, start, id, next⟩).children.value =
      (if seed.isEmpty then [] else [Site.seedNode t (layout rules t.tokens.source) id
        (start + Text.bytes tag.opening) next seed]) ++
      Site.nodes t (layout rules t.tokens.source)
        (Site.parts ⟨.nest tag seed first siblings closing, parent, start, id, next⟩) := by
  have hkept := Site.filterMap_kept hd fun _ hpart => Outline.Sited.part hs hpart
  have hnode : t.node? (next + 1) = some (Site.seedNode t (layout rules t.tokens.source) id
      (start + Text.bytes tag.opening) next seed) := by
    rw [NodeTree.node?, hd.getElem?_eq (.seed hs)]
    rfl
  simp only [Node.children, Site.node, h.childIds_eq, hd.project_nest hs]
  rw [← hkept]
  cases he : seed.isEmpty with
  | true => simp [kept]
  | false => simp [kept, hnode]

mutual

/-- **The node of a site has a branch** within the tokens of its segment. -/
theorem Segment.thrive (h : t.Parsed) (hd : t.tokens.Drawn rules o) {parent : Option Nat}
    {start id next : Nat} (s : Segment K) (hs : o.Sited ⟨s, parent, start, id, next⟩) :
    Thrive [Site.node t (layout rules t.tokens.source) ⟨s, parent, start, id, next⟩] s.count := by
  have htoken := hd.getElem?_eq (.own hs)
  cases s with
  | literal plain swallowed =>
    apply Thrive.leaf h
    simp only [NodeTree.project, htoken]
    rfl
  | tag tag content closing =>
    apply Thrive.leaf h
    simp only [NodeTree.project, htoken]
    rfl
  | nest tag seed first siblings closing =>
    have hparts : ∀ site ∈ Site.parts ⟨.nest tag seed first siblings closing, parent, start, id, next⟩,
        o.Sited site := fun _ => .part hs
    obtain ⟨hfirst, hrow⟩ := List.forall_mem_cons.1 hparts
    have hinner := (Segment.thrive h hd first hfirst).cons_site
      (Segment.thrive_row h hd siblings hrow)
    have hleaf : Thrive [Site.seedNode t (layout rules t.tokens.source) id
        (start + Text.bytes tag.opening) next seed] 1 := Thrive.leaf h (hd.project_seed hs)
    have hchildren : Thrive (Site.node t (layout rules t.tokens.source) ⟨.nest tag seed first siblings
        closing, parent, start, id, next⟩).children.value
        (1 + (first.count + count.counts siblings)) := by
      rw [Site.children_nest h hd hs]
      cases seed.isEmpty with
      | true => exact hinner.mono (Nat.le_add_left _ 1)
      | false => exact hleaf.append hinner
    exact hchildren.of_children.mono (by simp only [count]; omega)

/-- The nodes of sites in a row have branches. -/
theorem Segment.thrive_row (h : t.Parsed) (hd : t.tokens.Drawn rules o) {parent : Option Nat}
    {start next : Nat} (segments : List (Segment K))
    (hs : ∀ site ∈ Site.row parent start next segments, o.Sited site) :
    Thrive (Site.nodes t (layout rules t.tokens.source) (Site.row parent start next segments))
      (count.counts segments) := by
  cases segments with
  | nil => exact .nil 0
  | cons s rest =>
    obtain ⟨hsite, hrest⟩ := List.forall_mem_cons.1 hs
    exact (Segment.thrive h hd s hsite).cons_site (Segment.thrive_row h hd rest hrest)

end

/-- The root of a tree has a branch within the tokens of the tree. -/
theorem NodeTree.Parsed.thrive_root (h : t.Parsed) : Thrive [t.root] t.tokens.size := by
  obtain ⟨rules, o, hd⟩ := h.exists_drawn
  have hsited : ∀ site ∈ o.sites, o.Sited site := fun _ => .top
  have hsize := hd.size_eq
  have hid := hd.root
  cases o with
  | single s =>
    have hs : (Outline.single s).Sited ⟨s, none, 0, 0, 1⟩ := hsited _ List.mem_cons_self
    rw [hd.root_single, hsize]
    apply (Segment.thrive h hd s hs).mono
    simp only [Outline.courses, Segment.length_row, Segment.count.counts]
    omega
  | series first second more =>
    obtain ⟨hpair, hmore⟩ := List.forall_mem_append.1 hsited
    have hrows := (Segment.thrive_row h hd [first, second] hpair).append
      (Segment.thrive_row h hd more hmore)
    rw [← Site.nodes_append] at hrows
    have hchildren : t.root.children.value = Site.nodes t (layout rules t.tokens.source)
        (Outline.sites (.series first second more)) := by
      simp only [Node.children, NodeTree.root, h.childIds_eq, hid, hd.project_root rfl]
      exact Site.filterMap_kept hd hsited
    have hroot := Thrive.of_children (hchildren ▸ hrows)
    rw [hsize]
    apply hroot.mono
    simp only [Outline.courses, List.length_append, List.length_cons, Segment.length_row,
      Segment.count.counts]
    omega

/-- **In a parsed tree the root has a branch,** with no more nodes than there are
tokens. -/
theorem NodeTree.Parsed.exists_branch (h : t.Parsed) :
    ∃ b : Branch K, b.Grows ∧ b.head = t.root ∧ b.size ≤ t.tokens.size := by
  obtain ⟨branches, hheads, hgrow, hsize⟩ := h.thrive_root
  cases branches with
  | nil => cases hheads
  | cons b rest =>
    obtain ⟨hhead, -⟩ := List.cons.inj hheads
    refine ⟨b, hgrow b List.mem_cons_self, hhead, ?_⟩
    simp only [Branch.size.sizes] at hsize
    omega

end

end Bracketry
