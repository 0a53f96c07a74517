import Bracketry.Proofs.Limited
import Bracketry.Proofs.Preorder

/-!
# Parents and descendants

Which tag encloses a token is set when the token is admitted, and which tokens a group takes
in is set when they end. A token that is no group and no empty literal is taken in exactly
once, by what encloses it. So going down by children and going up by parents finds the same
nodes.

* `TokenTree.Drawn.mem_project`: a proper token is a child of the tag that encloses it.
* `NodeTree.Parsed.mem_children_iff`: **the children of a node are the proper nodes that it
  encloses.**
* `NodeTree.Parsed.mem_below_iff`: **a proper node is below what encloses it,** at any depth.
* `links_agree`: parents, children, ancestors and descendants of a parsed tree agree.
-/

namespace Bracketry

variable {K : Type}

/-- A token that is a child wherever it stands: it is no group, and it is no literal without
text. -/
structure TokenTree.Proper (t : TokenTree K) (token : Token K) : Prop where
  isGroup : token.isGroup = false
  text : token.isLiteral = true → t.text token ≠ []

/-- Some children of a token: they have tokens of different numbers, and they stand in a row from
where the content of the token starts. -/
structure TokenTree.Holds (t : TokenTree K) (token : Token K) (children : List Child) : Prop where
  nodup : (kept children).Nodup
  fits : ∀ c ∈ children, ∃ p, t.Fits c p
  row : ∃ a b c, token.content = some ⟨a, c⟩ ∧ Abut a children b ∧ b ≤ c

/-- A node of a proper token. -/
def Node.Proper (n : Node K) : Prop := n.tree.tokens.Proper n.token

/-- The node of a tag is proper. -/
theorem Node.Proper.of_tag {n : Node K} {rule : Nat} (h : n.token.variant = .tag rule) :
    n.Proper := by
  constructor
  · unfold Token.isGroup
    rw [h]
  · intro hliteral
    unfold Token.isLiteral at hliteral
    rw [h] at hliteral
    cases hliteral

/-- A node is one of a tree. -/
def NodeTree.Has (t : NodeTree K) (n : Node K) : Prop := t.node? n.id = some n

theorem NodeTree.has_iff {t : NodeTree K} {n : Node K} : t.Has n ↔ n.tree = t ∧ n.Genuine := by
  constructor
  · intro h
    exact ⟨(node?_eq_some h).1, genuine_of_node? h⟩
  · rintro ⟨rfl, hn⟩
    exact hn

/-! ## What a group keeps -/

/-- A group keeps the children that are proper. -/
theorem TokenTree.Fits.proper_iff {t : TokenTree K} {c : Child} {p : Token K} (h : t.Fits c p) :
    t.Proper p ↔ c.emptyLiteral = false := by
  have hempty := h.empty
  constructor
  · intro hp
    by_contra hc
    obtain ⟨hliteral, htext⟩ := hempty.1 (by simpa using hc)
    exact hp.text hliteral htext
  · intro hc
    refine ⟨h.isGroup, fun hliteral htext => ?_⟩
    rw [hempty.2 ⟨hliteral, htext⟩] at hc
    cases hc

namespace Site

/-- Sites in a row have different numbers, below the number of what comes after them. -/
theorem nodup_row (parent : Option Nat) (start next : Nat) (segments : List (Segment K)) :
    ((row parent start next segments).map Site.id).Nodup ∧
      ∀ site ∈ row parent start next segments,
        next ≤ site.id ∧ site.id < next + Segment.count.counts segments := by
  induction segments generalizing start next with
  | nil => exact ⟨List.nodup_nil, fun _ hs => absurd hs List.not_mem_nil⟩
  | cons s rest ih =>
    obtain ⟨hnodup, hrange⟩ := ih (start + s.bytes) (next + s.count)
    have hpos := s.count_pos
    have hcount : Segment.count.counts (s :: rest) = s.count + Segment.count.counts rest := rfl
    constructor
    · refine List.nodup_cons.2 ⟨fun hmem => ?_, hnodup⟩
      obtain ⟨site, hsite, hid⟩ := List.mem_map.1 hmem
      have hge := (hrange site hsite).1
      dsimp only at hid
      omega
    · intro site hsite
      rcases List.mem_cons.1 hsite with rfl | hsite
      · dsimp only
        omega
      · have hin := hrange site hsite
        omega

/-- The seed and the parts of a tag have different numbers. -/
theorem nodup_parts (t : Tag K) (seed closing : Text) (first : Segment K)
    (siblings : List (Segment K)) (parent : Option Nat) (start id next : Nat) :
    ((next + 1) :: (parts ⟨.nest t seed first siblings closing, parent, start, id, next⟩).map
      Site.id).Nodup := by
  obtain ⟨hnodup, hrange⟩ := nodup_row (some id)
    (start + Text.bytes t.opening + Text.bytes seed + first.bytes) (next + 2 + first.count) siblings
  have hrow : ∀ j ∈ (row (some id) (start + Text.bytes t.opening + Text.bytes seed + first.bytes)
      (next + 2 + first.count) siblings).map Site.id, next + 2 ≤ j := by
    intro j hj
    obtain ⟨site, hsite, rfl⟩ := List.mem_map.1 hj
    have hge := (hrange site hsite).1
    omega
  unfold parts
  simp only [List.map_cons, List.nodup_cons, List.mem_cons, not_or]
  refine ⟨⟨by omega, fun hmem => ?_⟩, fun hmem => ?_, hnodup⟩
  · have hge := hrow _ hmem
    omega
  · have hge := hrow _ hmem
    omega

theorem map_id_child (sites : List (Site K)) : (sites.map child).map Child.id = sites.map Site.id := by
  rw [List.map_map]
  rfl

end Site

/-- The sites of the outermost level have different numbers. -/
theorem Outline.nodup_sites (o : Outline K) : (o.sites.map Site.id).Nodup := by
  cases o with
  | single s => exact (Site.nodup_row none 0 0 [s]).1
  | series first second more =>
    obtain ⟨hpair, hlow⟩ := Site.nodup_row none 0 0 [first, second]
    obtain ⟨hmore, hhigh⟩ := Site.nodup_row none (first.bytes + second.bytes)
      (first.count + second.count + 1) more
    have hcount : Segment.count.counts [first, second] = first.count + second.count := rfl
    rw [sites, List.map_append]
    refine List.nodup_append.2 ⟨hpair, hmore, ?_⟩
    intro i hi j hj heq
    obtain ⟨low, hmem, rfl⟩ := List.mem_map.1 hi
    obtain ⟨high, hmem', rfl⟩ := List.mem_map.1 hj
    have h1 := (hlow low hmem).2
    have h2 := (hhigh high hmem').1
    omega

theorem nodup_kept {children : List Child} (h : (children.map Child.id).Nodup) :
    (kept children).Nodup :=
  h.sublist (List.filter_sublist.map _)

/-! ## Children of tokens -/

namespace TokenTree.Drawn

variable {rules : Ruleset K} {t : TokenTree K} {o : Outline K}

section Nest

variable {tag : Tag K} {seed closing : Text} {first : Segment K} {siblings : List (Segment K)}
  {parent : Option Nat} {start id next : Nat}

/-- The seed and the parts of a tag have their tokens. -/
theorem fits_inside (h : t.Drawn rules o)
    (hs : o.Sited ⟨.nest tag seed first siblings closing, parent, start, id, next⟩) :
    ∀ c ∈ (⟨next + 1, Segment.spanAt (start + Text.bytes tag.opening) seed, seed.isEmpty⟩ ::
      (Site.parts ⟨.nest tag seed first siblings closing, parent, start, id, next⟩).map Site.child),
      ∃ p, t.Fits c p := by
  intro c hc
  rcases List.mem_cons.1 hc with rfl | hc
  · exact ⟨_, (h.fits_seed hs rfl).1⟩
  · obtain ⟨site, hmem, rfl⟩ := List.mem_map.1 hc
    exact ⟨_, h.fits_own (.part hs hmem)⟩

theorem nodup_inside (tag : Tag K) (seed closing : Text) (first : Segment K)
    (siblings : List (Segment K)) (parent : Option Nat) (start id next : Nat) :
    (kept (⟨next + 1, Segment.spanAt (start + Text.bytes tag.opening) seed, seed.isEmpty⟩ ::
      (Site.parts ⟨.nest tag seed first siblings closing, parent, start, id, next⟩).map
        Site.child)).Nodup := by
  apply nodup_kept
  rw [List.map_cons, Site.map_id_child]
  exact Site.nodup_parts tag seed closing first siblings parent start id next

end Nest

/-- **The children of a token stand in a row in its content.** A group leaves out those that
are empty literals. -/
theorem exists_holds (h : t.Drawn rules o) {i : Nat} {token : Token K}
    (hi : t.tokens[i]? = some token) :
    ∃ children, NodeTree.project t i = kept children ∧ t.Holds token children := by
  have hnone : NodeTree.project t i = [] → (∃ a c, token.content = some ⟨a, c⟩ ∧ a ≤ c) →
      ∃ children, NodeTree.project t i = kept children ∧ t.Holds token children := by
    rintro hnil ⟨a, c, hcontent, hle⟩
    exact ⟨[], hnil, List.nodup_nil, fun _ hc => absurd hc List.not_mem_nil,
      a, a, c, hcontent, .nil a, hle⟩
  obtain ⟨c, hc, rfl⟩ := h.token_stands hi
  cases hc with
  | @own site hs =>
    obtain ⟨segment, parent, start, id, next⟩ := site
    cases segment with
    | literal plain swallowed =>
      apply hnone
      · simp only [NodeTree.project, hi]
        rfl
      · exact ⟨_, _, rfl, Nat.le_add_right _ _⟩
    | tag tag content closing =>
      apply hnone
      · simp only [NodeTree.project, hi]
        rfl
      · exact ⟨_, _, rfl, Nat.le_add_right _ _⟩
    | nest tag seed first siblings closing =>
      have hab := Site.abut_nest tag seed closing first siblings parent start id next
      refine ⟨_, h.project_nest hs, nodup_inside _ _ _ _ _ _ _ _ _, h.fits_inside hs,
        _, _, _, rfl, hab, ?_⟩
      simp [Segment.bytes_text, Segment.bytes_texts, Segment.spanAt, Nat.add_assoc]
  | seed hs => exact hnone (h.project_seed hs) ⟨_, _, rfl, Nat.le_add_right _ _⟩
  | @group tag seed closing first siblings parent start id next hs =>
    have hab := Site.abut_nest tag seed closing first siblings parent start id next
    rw [Course.token_group _ _ hab] at hi ⊢
    refine ⟨_, ?_, nodup_inside _ _ _ _ _ _ _ _ _, h.fits_inside hs, _, _, _, rfl, hab, Nat.le_refl _⟩
    rw [NodeTree.project, hi]
    rfl
  | root ho =>
    rw [Course.token_group _ none o.abut_sites]
    refine ⟨_, h.project_root ho, nodup_kept ?_, fun c hc => ?_, _, _, _, rfl, o.abut_sites,
      Nat.le_refl _⟩
    · rw [Site.map_id_child]
      exact o.nodup_sites
    · obtain ⟨site, hmem, rfl⟩ := List.mem_map.1 hc
      exact ⟨_, h.fits_own (.top hmem)⟩

theorem nodup_project (h : t.Drawn rules o) (i : Nat) : (NodeTree.project t i).Nodup := by
  cases hi : t.tokens[i]? with
  | none =>
    rw [NodeTree.project, hi]
    exact List.nodup_nil
  | some token =>
    obtain ⟨children, hproject, hholds⟩ := h.exists_holds hi
    rw [hproject]
    exact hholds.nodup

/-- A child is proper. -/
theorem proper_child (h : t.Drawn rules o) {i j : Nat} {token : Token K}
    (hi : t.tokens[i]? = some token) (hj : j ∈ NodeTree.project t i) :
    ∃ child, t.tokens[j]? = some child ∧ t.Proper child := by
  obtain ⟨children, hproject, hholds⟩ := h.exists_holds hi
  rw [hproject] at hj
  obtain ⟨c, hc, hempty, rfl⟩ := mem_kept.1 hj
  obtain ⟨p, hp⟩ := hholds.fits c hc
  exact ⟨p, hp.token, hp.proper_iff.2 hempty⟩

/-- The token of a site is proper if a group keeps it. -/
theorem emptyLiteral_child (h : t.Drawn rules o) {site : Site K} (hs : o.Sited site)
    (hp : t.Proper (site.own (layout rules t.source)).token) : site.child.emptyLiteral = false :=
  (h.fits_own hs).proper_iff.1 hp

/-- **A proper token is a child of the tag that encloses it.** -/
theorem mem_project (h : t.Drawn rules o) {i j : Nat} {child : Token K}
    (hj : t.tokens[j]? = some child) (hp : t.Proper child) (hparent : child.parent = some i) :
    j ∈ NodeTree.project t i := by
  obtain ⟨c, hc, rfl⟩ := h.token_stands hj
  obtain ⟨outer, houter, rfl, hwithin⟩ := hc.within hparent
  cases hwithin with
  | @part _ site hmem =>
    have hkeeps := h.emptyLiteral_child (.part houter hmem) hp
    obtain ⟨segment, parent, start, id, next⟩ := outer
    cases segment with
    | literal plain swallowed => cases hmem
    | tag tag content closing => cases hmem
    | nest tag seed first siblings closing =>
      rw [h.project_nest houter]
      exact mem_kept.2 ⟨site.child, List.mem_cons_of_mem _ (List.mem_map_of_mem hmem), hkeeps, rfl⟩
  | seed =>
    rw [h.project_nest houter]
    have hkeeps := (h.fits_seed houter rfl).1.proper_iff.1 hp
    exact mem_kept.2 ⟨_, List.mem_cons_self, hkeeps, rfl⟩
  | @group tag seed closing first siblings parent start id next =>
    have hab := Site.abut_nest tag seed closing first siblings parent start id next
    have hgroup := hp.isGroup
    rw [Course.token_group _ _ hab] at hgroup
    cases hgroup

/-- **A proper token that nothing encloses is a child of the root,** or the root itself. -/
theorem mem_project_root (h : t.Drawn rules o) {j : Nat} {child : Token K}
    (hj : t.tokens[j]? = some child) (hp : t.Proper child) (hparent : child.parent = none) :
    j = t.root ∨ j ∈ NodeTree.project t t.root := by
  obtain ⟨c, hc, rfl⟩ := h.token_stands hj
  cases hc with
  | @own site hs =>
    rw [Site.parent_own] at hparent
    have hkeeps := h.emptyLiteral_child hs hp
    cases hs with
    | part _ hmem =>
      rw [Site.parent_part hmem] at hparent
      cases hparent
    | top hmem =>
      rw [h.root]
      cases o with
      | single s =>
        obtain rfl := List.mem_singleton.1 hmem
        exact .inl rfl
      | series first second more =>
        right
        rw [h.project_root rfl]
        exact mem_kept.2 ⟨site.child, List.mem_map_of_mem hmem, hkeeps, rfl⟩
  | seed _ => cases hparent
  | group _ =>
    rw [Course.parent_token] at hparent
    cases hparent
  | root _ => exact .inl h.root.symm

/-- What encloses a token is a tag. -/
theorem parent_isTag (h : t.Drawn rules o) {i p : Nat} {token : Token K}
    (hi : t.tokens[i]? = some token) (hp : token.parent = some p) :
    ∃ tag rule, t.tokens[p]? = some tag ∧ tag.variant = .tag rule := by
  obtain ⟨c, hc, rfl⟩ := h.token_stands hi
  obtain ⟨outer, houter, rfl, hwithin⟩ := hc.within hp
  cases hwithin with
  | part hmem =>
    obtain ⟨segment, parent, start, id, next⟩ := outer
    cases segment with
    | literal plain swallowed => cases hmem
    | tag tag content closing => cases hmem
    | nest tag seed first siblings closing => exact ⟨_, _, h.getElem?_eq (.own houter), rfl⟩
  | seed => exact ⟨_, _, h.getElem?_eq (.own houter), rfl⟩
  | group => exact ⟨_, _, h.getElem?_eq (.own houter), rfl⟩

end TokenTree.Drawn

/-! ## Branches of nodes -/

/-- A site takes no more tokens than there are. -/
theorem Outline.Sited.count_le {o : Outline K} {site : Site K} (h : o.Sited site) (l : Layout K) :
    site.segment.count ≤ (o.courses l).length := by
  obtain ⟨before, after, hall, hbefore⟩ := (h.placed (l := l)).inner
  have hlength := Segment.length_inner l site.id site.start site.next site.segment
  have hnext := h.id_lt.1
  have hinner : (site.inner l).length + 1 = site.segment.count := hlength
  rw [hall, List.length_append, List.length_append]
  omega

namespace Branch

theorem head_mem_preorder (b : Branch K) : b.head ∈ b.preorder := by
  rw [preorder_eq]
  exact List.mem_cons_self

theorem Grows.heads {b : Branch K} (hb : b.Grows) : b.branches.map head = b.head.children.value := by
  cases hb with
  | node hheads _ => exact hheads

theorem Grows.branch {b part : Branch K} (hb : b.Grows) (hpart : part ∈ b.branches) : part.Grows := by
  cases hb with
  | node _ hgrow => exact hgrow part hpart

/-- The children of what is in a branch are in the branch. -/
theorem Grows.child_mem_preorder {b : Branch K} (hb : b.Grows) {n m : Node K}
    (hn : n ∈ b.preorder) (hm : m ∈ n.children.value) : m ∈ b.preorder := by
  induction hb with
  | @node head branches hheads _ ih =>
    apply List.mem_cons_of_mem
    apply mem_preorders.2
    rcases List.mem_cons.1 hn with rfl | hn
    · rw [← hheads] at hm
      obtain ⟨b, hb, rfl⟩ := List.mem_map.1 hm
      exact ⟨b, hb, b.head_mem_preorder⟩
    · obtain ⟨b, hb, hn⟩ := mem_preorders.1 hn
      exact ⟨b, hb, ih b hb hn⟩

end Branch

namespace NodeTree.Parsed

variable [DecidableEq K] [Taxonomy K] {n m k : Node K}

/-- **Every node of a parsed tree has a branch,** with no more nodes than there are tokens. -/
theorem exists_branch_of (h : n.tree.Parsed) (hn : n.Genuine) :
    ∃ b : Branch K, b.Grows ∧ b.head = n ∧ b.size ≤ n.tree.tokens.size := by
  obtain ⟨t, i, token⟩ := n
  obtain ⟨rules, o, hd⟩ := Parsed.exists_drawn (t := t) h
  have htoken : t.tokens.tokens[i]? = some token := (node?_eq_some hn).2.2
  have hsize := hd.size_eq
  have hroom : ∀ {n : Node K} {m : Nat}, Thrive [n] m → m ≤ t.tokens.size →
      ∃ b : Branch K, b.Grows ∧ b.head = n ∧ b.size ≤ t.tokens.size := by
    rintro n m ⟨branches, hheads, hgrow, hbound⟩ hm
    cases branches with
    | nil => cases hheads
    | cons b rest =>
      obtain ⟨hhead, -⟩ := List.cons.inj hheads
      have hb : b.size ≤ Branch.size.sizes (b :: rest) := Nat.le_add_right _ _
      exact ⟨b, hgrow b List.mem_cons_self, hhead, by omega⟩
  obtain ⟨c, hc, rfl⟩ := hd.token_stands htoken
  cases hc with
  | @own site hs =>
    have hcount := hs.count_le (TokenTree.layout rules t.tokens.source)
    have hthrive := Segment.thrive h hd site.segment hs
    exact hroom hthrive (by rw [hsize]; exact hcount)
  | seed hs =>
    have hpos := t.tokens.root_lt
    refine hroom (Thrive.leaf h (hd.project_seed hs)) ?_
    unfold TokenTree.size
    omega
  | @group tag seed closing first siblings parent start id next hs =>
    -- the group of a tag has the children of the tag
    have hcount := hs.count_le (TokenTree.layout rules t.tokens.source)
    have hthrive := Segment.thrive h hd _ hs
    obtain ⟨b, hb, hhead, hbound⟩ := hroom hthrive (by rw [hsize]; exact hcount)
    have hab := Site.abut_nest tag seed closing first siblings parent start id next
    rw [Course.token_group _ _ hab] at htoken
    have hproject : NodeTree.project t.tokens (next + 2) = NodeTree.project t.tokens id := by
      rw [hd.project_nest hs, NodeTree.project, htoken]
      rfl
    refine ⟨.node _ b.branches, .node ?_ fun _ => hb.branch, rfl, ?_⟩
    · rw [hb.heads, hhead]
      simp only [Node.children, Site.node, h.childIds_eq, hproject]
    · cases b
      exact hbound
  | root ho =>
    obtain ⟨b, hb, hhead, hbound⟩ := h.exists_branch
    have hroot := hd.rootToken_eq (.root ho)
    refine ⟨b, hb, ?_, hbound⟩
    rw [hhead, root, hroot, hd.root]

/-- What is below a node is its branch in pre-order, without the node. -/
theorem exists_below_eq (h : n.tree.Parsed) (hn : n.Genuine) :
    ∃ b : Branch K, b.Grows ∧ b.head = n ∧ n.below = Branch.preorder.preorders b.branches := by
  obtain ⟨b, hb, rfl, hsize⟩ := h.exists_branch_of hn
  exact ⟨b, hb, rfl, h.below_eq_preorder hb rfl hn hsize⟩

/-- The children of a node are below it. -/
theorem mem_below_of_child (h : n.tree.Parsed) (hn : n.Genuine) (hm : m ∈ n.children.value) :
    m ∈ n.below := by
  obtain ⟨b, hb, rfl, hbelow⟩ := h.exists_below_eq hn
  rw [← hb.heads] at hm
  obtain ⟨part, hpart, rfl⟩ := List.mem_map.1 hm
  rw [hbelow]
  exact Branch.mem_preorders.2 ⟨part, hpart, part.head_mem_preorder⟩

/-- The children of what is below a node are below it. -/
theorem mem_below_step (h : n.tree.Parsed) (hn : n.Genuine) (hk : k ∈ n.below)
    (hm : m ∈ k.children.value) : m ∈ n.below := by
  obtain ⟨b, hb, rfl, hbelow⟩ := h.exists_below_eq hn
  rw [hbelow] at hk ⊢
  obtain ⟨part, hpart, hk⟩ := Branch.mem_preorders.1 hk
  exact Branch.mem_preorders.2 ⟨part, hpart, (hb.branch hpart).child_mem_preorder hk hm⟩

/-- What holds of the children of a node, and passes from a node to its children, holds below
the node. -/
theorem forall_below {P : Node K → Prop} (h : n.tree.Parsed) (hn : n.Genuine)
    (hchild : ∀ m ∈ n.children.value, P m) (hstep : ∀ k m, P k → m ∈ k.children.value → P m) :
    ∀ m ∈ n.below, P m := by
  obtain ⟨b, hb, rfl, hbelow⟩ := h.exists_below_eq hn
  rw [hbelow]
  intro m hm
  obtain ⟨part, hpart, hm⟩ := Branch.mem_preorders.1 hm
  have hhead : P part.head := by
    apply hchild
    rw [← hb.heads]
    exact List.mem_map_of_mem hpart
  exact (hb.branch hpart).forall_preorder hstep hhead m hm

end NodeTree.Parsed

/-! ## Children and descendants of nodes -/

namespace NodeTree.Parsed

variable [DecidableEq K] [Taxonomy K] {t : NodeTree K} {n m a d : Node K}

theorem nodup_children (h : n.tree.Parsed) (hn : n.Genuine) : n.children.value.Nodup := by
  obtain ⟨rules, o, hd⟩ := h.exists_drawn
  have hids := h.childIds_eq_map hn
  have hnodup := hd.nodup_project n.id
  rw [← h.childIds_eq, hids] at hnodup
  exact hnodup.of_map

theorem proper_of_child (h : n.tree.Parsed) (hn : n.Genuine) (hm : m ∈ n.children.value) :
    m.Proper := by
  obtain ⟨rules, o, hd⟩ := h.exists_drawn
  obtain ⟨j, hj, hnode⟩ := List.mem_filterMap.1 hm
  obtain ⟨htree, -, htoken⟩ := node?_eq_some hnode
  rw [h.childIds_eq] at hj
  obtain ⟨child, hchild, hproper⟩ := hd.proper_child (node?_eq_some hn).2.2 hj
  rw [htoken] at hchild
  cases hchild
  unfold Node.Proper
  rw [htree]
  exact hproper

theorem mem_children_of_project (h : n.tree.Parsed) (hm : n.tree.Has m)
    (hid : m.id ∈ project n.tree.tokens n.id) : m ∈ n.children.value := by
  refine List.mem_filterMap.2 ⟨m.id, ?_, hm⟩
  rw [h.childIds_eq]
  exact hid

/-- **The children of a node are the proper nodes that it encloses.** -/
theorem mem_children_iff (h : n.tree.Parsed) (hn : n.Genuine) (hg : n.isGroup = false) :
    m ∈ n.children.value ↔ n.tree.Has m ∧ m.Proper ∧ m.token.parent = some n.id := by
  constructor
  · intro hm
    obtain ⟨htree, hgenuine, -, hparent⟩ := h.child hn hm
    rw [if_neg (by simp [hg])] at hparent
    exact ⟨has_iff.2 ⟨htree, hgenuine⟩, h.proper_of_child hn hm, hparent⟩
  · rintro ⟨hm, hproper, hparent⟩
    obtain ⟨rules, o, hd⟩ := h.exists_drawn
    obtain ⟨htree, -, htoken⟩ := node?_eq_some hm
    unfold Node.Proper at hproper
    rw [htree] at hproper
    exact h.mem_children_of_project hm (hd.mem_project htoken hproper hparent)

/-- The children of a group at the root are the proper nodes that nothing encloses. -/
theorem mem_children_root_iff (h : t.Parsed) (hg : t.root.isGroup = true) :
    m ∈ t.root.children.value ↔ t.Has m ∧ m.Proper ∧ m.token.parent = none := by
  obtain ⟨rules, o, hd⟩ := h.exists_drawn
  constructor
  · intro hm
    obtain ⟨htree, hgenuine, -, hparent⟩ := Parsed.child (n := t.root) h t.genuine_root hm
    rw [if_pos hg] at hparent
    exact ⟨has_iff.2 ⟨htree, hgenuine⟩, Parsed.proper_of_child (n := t.root) h t.genuine_root hm,
      hparent.trans hd.parent_root⟩
  · rintro ⟨hm, hproper, hparent⟩
    obtain ⟨rfl, -, htoken⟩ := node?_eq_some hm
    rcases hd.mem_project_root htoken hproper hparent with hid | hid
    · -- the root is a group, and a proper node is none
      have hroot := (node?_eq_some m.tree.genuine_root).2.2
      have heq : m.token = m.tree.root.token := by
        rw [hid] at htoken
        exact Option.some.inj (htoken.symm.trans hroot)
      have hgroup := hproper.isGroup
      rw [heq] at hgroup
      exact absurd hg (by simp [Node.isGroup, hgroup])
    · exact Parsed.mem_children_of_project (n := m.tree.root) h hm hid

/-- A node that something encloses has a tag for its parent, which comes before it. -/
theorem exists_parent (h : d.tree.Parsed) (hd : d.Genuine) {p : Nat} (hp : d.token.parent = some p) :
    ∃ m : Node K, d.tree.Has m ∧ m.id = p ∧ p < d.id ∧ (∃ rule, m.token.variant = .tag rule) ∧
      d.ancestors = m :: m.ancestors := by
  obtain ⟨rules, o, hdrawn⟩ := h.exists_drawn
  have htoken := (node?_eq_some hd).2.2
  obtain ⟨tag, rule, htag, hvariant⟩ := hdrawn.parent_isTag htoken hp
  have hnode : d.tree.node? p = some ⟨d.tree, p, tag⟩ := by
    rw [node?, htag]
    rfl
  have hancestors := ancestors_eq_cons (n := ⟨d.tree, p, tag⟩) (m := d) hdrawn hnode rfl hp
  exact ⟨⟨d.tree, p, tag⟩, hnode, rfl, hdrawn.parent_lt htoken hp, ⟨rule, hvariant⟩, hancestors⟩

/-- Below a node are proper nodes of its tree. -/
theorem proper_of_mem_below (h : n.tree.Parsed) (hn : n.Genuine) (hd : d ∈ n.below) :
    n.tree.Has d ∧ d.Proper := by
  refine h.forall_below (P := fun d => n.tree.Has d ∧ d.Proper) hn ?_ ?_ d hd
  · intro m hm
    obtain ⟨htree, hgenuine, -, -⟩ := h.child hn hm
    exact ⟨has_iff.2 ⟨htree, hgenuine⟩, h.proper_of_child hn hm⟩
  · rintro k m ⟨hk, -⟩ hm
    obtain ⟨htree, hgenuine⟩ := has_iff.1 hk
    have hparsed : k.tree.Parsed := htree ▸ h
    obtain ⟨hmtree, hmgenuine, -, -⟩ := hparsed.child hgenuine hm
    exact ⟨has_iff.2 ⟨hmtree.trans htree, hmgenuine⟩, hparsed.proper_of_child hgenuine hm⟩

/-- What is below a node is enclosed by it. -/
theorem mem_ancestors_of_mem_below (h : a.tree.Parsed) (ha : a.Genuine) (hg : a.isGroup = false)
    (hd : d ∈ a.below) : a ∈ d.ancestors := by
  have hall := h.forall_below (P := fun d => (a.tree.Has d ∧ d.Proper) ∧ a ∈ d.ancestors) ha ?_ ?_ d hd
  · exact hall.2
  · intro m hm
    refine ⟨h.proper_of_mem_below ha (h.mem_below_of_child ha hm), ?_⟩
    rw [h.ancestors_child ha hm, if_neg (by simp [hg])]
    exact List.mem_cons_self
  · rintro k m ⟨⟨hk, hproper⟩, hmem⟩ hm
    obtain ⟨htree, hgenuine⟩ := has_iff.1 hk
    have hparsed : k.tree.Parsed := htree ▸ h
    have hbelow := hparsed.proper_of_mem_below hgenuine (hparsed.mem_below_of_child hgenuine hm)
    rw [htree] at hbelow
    refine ⟨hbelow, ?_⟩
    -- a proper node is no group, so it encloses its children
    rw [hparsed.ancestors_child hgenuine hm, if_neg (by simp [Node.isGroup, hproper.isGroup])]
    exact List.mem_cons_of_mem _ hmem

/-- **A proper node is below what encloses it,** at any depth. -/
theorem mem_below_iff (h : a.tree.Parsed) (ha : a.Genuine) (hg : a.isGroup = false)
    (hd : a.tree.Has d) : d ∈ a.below ↔ d.Proper ∧ a ∈ d.ancestors := by
  constructor
  · intro hmem
    exact ⟨(h.proper_of_mem_below ha hmem).2, h.mem_ancestors_of_mem_below ha hg hmem⟩
  · -- the parent of a node has a smaller number, so the induction goes up
    induction hid : d.id using Nat.strong_induction_on generalizing d with
    | _ i ih =>
      rintro ⟨hproper, hmem⟩
      subst hid
      obtain ⟨htree, hgenuine⟩ := has_iff.1 hd
      have hparsed : d.tree.Parsed := htree ▸ h
      cases hp : d.token.parent with
      | none =>
        rw [ancestors_eq_nil hp] at hmem
        cases hmem
      | some p =>
        obtain ⟨m, hm, rfl, hlt, ⟨rule, hvariant⟩, hancestors⟩ := hparsed.exists_parent hgenuine hp
        obtain ⟨hmtree, hmgenuine⟩ := has_iff.1 hm
        have hmproper : m.Proper := .of_tag hvariant
        have hchild : d ∈ m.children.value := by
          have hmparsed : m.tree.Parsed := hmtree ▸ hparsed
          exact (hmparsed.mem_children_iff hmgenuine hmproper.isGroup).2
            ⟨has_iff.2 ⟨hmtree.symm, hgenuine⟩, hproper, hp⟩
        rw [hancestors] at hmem
        rcases List.mem_cons.1 hmem with rfl | hmem
        · exact h.mem_below_of_child ha hchild
        · have hbelow := ih m.id hlt (htree ▸ hm) rfl ⟨hmproper, hmem⟩
          exact h.mem_below_step ha hbelow hchild

end NodeTree.Parsed

/-! ## Parsed trees -/

/-- **Parents and children of a tree agree.** A token is enclosed by a tag of a smaller number.
The children of a node are the proper nodes that it encloses, each of them once, and those of
a group at the root are the proper nodes that nothing encloses. A node is below another if
the other is among its ancestors. -/
structure NodeTree.LinksAgree (t : NodeTree K) : Prop where
  parent_lt : ∀ (i p : Nat) (token : Token K), t.tokens.tokens[i]? = some token →
    token.parent = some p →
    p < i ∧ ∃ (tag : Token K) (rule : Nat), t.tokens.tokens[p]? = some tag ∧ tag.variant = .tag rule
  nodup : ∀ n : Node K, t.Has n → n.children.value.Nodup
  children : ∀ n : Node K, t.Has n → n.isGroup = false → ∀ m : Node K,
    m ∈ n.children.value ↔ t.Has m ∧ m.Proper ∧ m.token.parent = some n.id
  outermost : t.root.isGroup = true → ∀ m : Node K,
    m ∈ t.root.children.value ↔ t.Has m ∧ m.Proper ∧ m.token.parent = none
  below : ∀ a d : Node K, t.Has a → a.isGroup = false → t.Has d →
    (d ∈ a.below ↔ d.Proper ∧ a ∈ d.ancestors)
  reachable : ∀ a d : Node K, a ∈ t.root :: t.root.below → a.isGroup = false →
    d ∈ t.root :: t.root.below → (d ∈ a.below ↔ a ∈ d.ancestors)

section

variable [DecidableEq K] [Taxonomy K] {t : NodeTree K}

/-- **In a parsed tree parents, children, ancestors and descendants agree.** -/
theorem links_agree (h : t.Parsed) : t.LinksAgree := by
  obtain ⟨rules, o, hdrawn⟩ := h.exists_drawn
  have hbelow : ∀ a d, t.Has a → a.isGroup = false → t.Has d →
      (d ∈ a.below ↔ d.Proper ∧ a ∈ d.ancestors) := by
    intro a d ha hg hd
    obtain ⟨rfl, hgenuine⟩ := NodeTree.has_iff.1 ha
    exact h.mem_below_iff hgenuine hg hd
  have hhas : ∀ n, n ∈ t.root :: t.root.below → t.Has n ∧ (n = t.root ∨ n.Proper) := by
    intro n hn
    rcases List.mem_cons.1 hn with rfl | hn
    · exact ⟨t.genuine_root, .inl rfl⟩
    · obtain ⟨hn, hproper⟩ :=
        NodeTree.Parsed.proper_of_mem_below (n := t.root) h t.genuine_root hn
      exact ⟨hn, .inr hproper⟩
  refine ⟨?_, ?_, ?_, fun hg m => h.mem_children_root_iff hg, hbelow, ?_⟩
  · intro i p token hi hp
    exact ⟨hdrawn.parent_lt hi hp, hdrawn.parent_isTag hi hp⟩
  · intro n hn
    obtain ⟨rfl, hgenuine⟩ := NodeTree.has_iff.1 hn
    exact h.nodup_children hgenuine
  · intro n hn hg m
    obtain ⟨rfl, hgenuine⟩ := NodeTree.has_iff.1 hn
    exact h.mem_children_iff hgenuine hg
  · intro a d ha hg hd
    obtain ⟨ha, -⟩ := hhas a ha
    obtain ⟨hd, hroot | hproper⟩ := hhas d hd
    · -- nothing encloses the root
      rw [hbelow a d ha hg hd, hroot, h.ancestors_root]
      simp
    · rw [hbelow a d ha hg hd]
      simp [hproper]

end

theorem links_agree_sample : ∃ t : NodeTree Template.Kind,
    t.tokens.source = Template.sample ∧ t.Parsed ∧ t.LinksAgree := by
  obtain ⟨tokens, hscan, -⟩ := Template.scan_sample
  have hparsed : (NodeTree.ofTokens Template.constraints tokens).Parsed :=
    .scan Template.constraints hscan
  exact ⟨_, (TokenTree.scan_drawn hscan).1, hparsed, links_agree hparsed⟩

end Bracketry
