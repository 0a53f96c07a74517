import Bracketry.Proofs.Missing

/-!
# What optional sections render as

An optional section renders as nothing if one of its own variables is missing: one that is in
no further section inside it. Else it renders as what its children render as, and a section
inside it that has nothing to render leaves a gap. So a section is all or nothing as long as no
section is nested in it.

* `Assembly.Stands`: some entries stand in an assembly.
* `Branch.Grows.exists_part`: what a node emits stands in what a branch emits.
* `NodeTree.Parsed.content_eq_texts`: **the children of a tag make up its content.**
* `Template.filled`: the text of a branch with its variables substituted.
* `Template.renderPieces_section`: **a section is nothing, or what its children evaluate to.**
* `Template.sections_render`: **what each section of a template renders as.**
* `Template.nested_section_renders`: a section renders although a variable inside it is missing.
-/

namespace Bracketry

variable {K I : Type}

/-! ## Parts of an output -/

/-- Some entries stand in a row in an assembly, on its outermost level or in a nested one. -/
inductive Assembly.Stands (entries : Assembly I) : Assembly I → Prop
  | row (before after : Assembly I) : Stands entries (before ++ entries ++ after)
  | nested (before inner after : Assembly I) :
      Stands entries inner → Stands entries (before ++ .nested inner :: after)

namespace Assembly.Stands

variable {entries a : Assembly I}

theorem append_left (h : Stands entries a) (more : Assembly I) : Stands entries (more ++ a) := by
  cases h with
  | row before after =>
    rw [← List.append_assoc, ← List.append_assoc]
    exact .row (more ++ before) after
  | nested before inner after hinner =>
    rw [← List.append_assoc]
    exact .nested (more ++ before) inner after hinner

theorem append_right (h : Stands entries a) (more : Assembly I) : Stands entries (a ++ more) := by
  cases h with
  | row before after =>
    rw [List.append_assoc]
    exact .row before (after ++ more)
  | nested before inner after hinner =>
    rw [List.append_assoc]
    exact .nested before inner (after ++ more) hinner

end Assembly.Stands

namespace Branch

variable {item : Node K → I} {b : Branch K}

/-- What stands in the entries of a branch stands in those of branches in a row. -/
theorem stands_all {inner : Assembly I} {branches : List (Branch K)} (hb : b ∈ branches)
    (h : inner.Stands (b.entries item)) : inner.Stands (entries.all item branches) := by
  induction branches with
  | nil => exact absurd hb List.not_mem_nil
  | cons first rest ih =>
    rw [entries.all]
    rcases List.mem_cons.1 hb with rfl | hb
    · exact h.append_right _
    · exact (ih hb).append_left _

theorem mem_preorder_of_branch {part : Branch K} (hpart : part ∈ b.branches) {n : Node K}
    (hn : n ∈ part.preorder) : n ∈ b.preorder := by
  rw [preorder_eq]
  exact List.mem_cons_of_mem _ (mem_preorders.2 ⟨part, hpart, hn⟩)

/-- **What a node emits stands in what a branch with the node emits.** -/
theorem Grows.exists_part (hb : b.Grows) (item : Node K → I) {n : Node K} (hn : n ∈ b.preorder) :
    ∃ part : Branch K, part.Grows ∧ part.head = n ∧ (∀ m ∈ part.preorder, m ∈ b.preorder) ∧
      (part.entries item).Stands (b.entries item) := by
  induction hb with
  | @node head branches hheads hgrow ih =>
    rcases List.mem_cons.1 hn with rfl | hn
    · have hrow : Assembly.Stands ((Branch.node n branches).entries item) _ := .row [] []
      rw [List.nil_append, List.append_nil] at hrow
      exact ⟨_, .node hheads hgrow, rfl, fun m hm => hm, hrow⟩
    · obtain ⟨b, hb, hn⟩ := mem_preorders.1 hn
      obtain ⟨part, hpart, hhead, hsub, hstands⟩ := ih b hb hn
      refine ⟨part, hpart, hhead, fun m hm => ?_, ?_⟩
      · exact List.mem_cons_of_mem _ (mem_preorders.2 ⟨b, hb, hsub m hm⟩)
      · have hsome : branches.isEmpty = false := by
          rw [List.isEmpty_eq_false_iff]
          exact List.ne_nil_of_mem hb
        rw [entries, hsome, if_neg (by simp)]
        exact .nested [.item (item head)] _ [] (stands_all hb hstands)

end Branch

/-! ## The texts of children -/

namespace TokenTree.Drawn

variable {rules : Ruleset K} {t : TokenTree K} {o : Outline K}

/-- The seed of a tag and then its parts, each with its token, have the texts that make up the
content of the tag. -/
theorem exists_row (h : t.Drawn rules o) {tag : Tag K} {seed closing : Text} {first : Segment K}
    {siblings : List (Segment K)} {parent : Option Nat} {start id next : Nat}
    (hs : o.Sited ⟨.nest tag seed first siblings closing, parent, start, id, next⟩) :
    ∃ row : List (Child × Token K), (∀ q ∈ row, t.Fits q.1 q.2) ∧
      row.map Prod.fst =
        ⟨next + 1, Segment.spanAt (start + Text.bytes tag.opening) seed, seed.isEmpty⟩ ::
          (Site.parts ⟨.nest tag seed first siblings closing, parent, start, id, next⟩).map
            Site.child ∧
      (row.map fun q => t.text q.2).flatten = seed ++ first.text ++ Segment.texts siblings := by
  have hsited : ∀ site ∈ Site.parts ⟨.nest tag seed first siblings closing, parent, start, id, next⟩,
      o.Sited site := fun _ => .part hs
  have hsegments : (Site.parts ⟨.nest tag seed first siblings closing, parent, start, id, next⟩).map
      Site.segment = first :: siblings := by
    rw [Site.parts, List.map_cons, Site.map_segment_row]
  obtain ⟨q, hq⟩ : ∃ q, q = seedWithToken (layout rules t.source) id
    (start + Text.bytes tag.opening) next seed := ⟨_, rfl⟩
  obtain ⟨hseed, htext⟩ := h.fits_seed hs hq
  refine ⟨q :: (Site.parts ⟨.nest tag seed first siblings closing, parent, start, id, next⟩).map
    (withToken (layout rules t.source)), ?_, ?_, ?_⟩
  · exact List.forall_mem_cons.2 ⟨hseed, h.fits_withToken hsited⟩
  · rw [List.map_cons, map_fst_withToken, hq]
    rfl
  · rw [List.map_cons, List.flatten_cons, h.texts_withToken hsited, hsegments, htext,
      Segment.texts_cons, List.append_assoc]

/-- The children of a tag have the texts that make up its content. -/
theorem texts_project (h : t.Drawn rules o) {i : Nat} {token : Token K}
    (hi : t.tokens[i]? = some token) (hg : token.isGroup = false)
    (hne : NodeTree.project t i ≠ []) :
    (((NodeTree.project t i).filterMap (t.tokens[·]?)).map t.text).flatten = t.content token := by
  obtain ⟨c, hc, rfl⟩ := h.token_stands hi
  cases hc with
  | seed hs => exact absurd (h.project_seed hs) hne
  | @group tag seed closing first siblings parent start id next _ =>
    have hab := Site.abut_nest tag seed closing first siblings parent start id next
    rw [Course.token_group _ _ hab] at hg
    cases hg
  | root _ =>
    rw [Course.token_group _ _ o.abut_sites] at hg
    cases hg
  | @own site hs =>
    obtain ⟨segment, parent, start, id, next⟩ := site
    cases segment with
    | literal plain swallowed =>
      unfold NodeTree.project at hne
      rw [hi] at hne
      exact absurd rfl hne
    | tag tag content closing =>
      unfold NodeTree.project at hne
      rw [hi] at hne
      exact absurd rfl hne
    | nest tag seed first siblings closing =>
      obtain ⟨row, hfits, hfst, htexts⟩ := h.exists_row hs
      have hcontent := (h.slices_tag hs (.nest tag seed first siblings closing)).2
      rw [h.project_nest hs, ← hfst, tokens_of_row hfits, List.map_map, hcontent, ← htexts]
      exact texts_of_row hfits

end TokenTree.Drawn

/-- **The children of a tag make up its content,** if it has any. -/
theorem NodeTree.Parsed.content_eq_texts [DecidableEq K] [Taxonomy K] {n : Node K}
    (h : n.tree.Parsed) (hn : n.Genuine) (hg : n.isGroup = false) (hne : n.children.value ≠ []) :
    (n.children.value.map Node.text).flatten = n.content := by
  obtain ⟨rules, o, hd⟩ := h.exists_drawn
  have htoken := (node?_eq_some hn).2.2
  have hproject : NodeTree.project n.tree.tokens n.id ≠ [] := by
    intro hnil
    rw [Node.children, h.childIds_eq, hnil] at hne
    exact hne rfl
  have htexts : n.children.value.map Node.text =
      ((NodeTree.project n.tree.tokens n.id).filterMap (n.tree.tokens.tokens[·]?)).map
        n.tree.tokens.text := by
    simp only [Node.children, h.childIds_eq, List.map_filterMap]
    refine List.filterMap_congr fun j _ => ?_
    rw [node?, Option.map_map]
    rfl
  rw [htexts]
  exact hd.texts_project htoken hg hproject

namespace Template

variable {t : NodeTree Kind} {o : Outline Kind} {n m : Node Kind} {b : Branch Kind} {args : Bindings}

/-! ## Substituted text -/

/-- The text of a branch with the values of its variables in their places. Plain text stands as it
is, and a filter transforms the text inside it. -/
def filled (args : Bindings) : Branch Kind → String
  | .node n branches =>
    match n.kind with
    | .text => String.ofList n.text
    | .var => (args.get? (varName n)).getD ""
    | .filter =>
      transform n (if branches.isEmpty then String.ofList n.content else all args branches)
    | _ => all args branches
where
  /-- The texts of siblings from left to right. -/
  all (args : Bindings) : List (Branch Kind) → String
    | [] => ""
    | b :: rest => filled args b ++ all args rest

mutual

/-- A branch whose variables have values evaluates to its text with these values. -/
theorem evaluate_eq_filled (b : Branch Kind)
    (h : ∀ n ∈ b.preorder, n.kind = .var → args.get? (varName n) ≠ none) :
    evaluate args b = .ok (filled args b) := by
  cases b with
  | node n branches =>
    obtain ⟨hn, hbelow⟩ := List.forall_mem_cons.1 h
    have hall := evaluate_all_eq_filled branches hbelow
    cases hk : n.kind with
    | text => simp only [evaluate, filled, hk]
    | var =>
      obtain ⟨value, hvalue⟩ := Option.ne_none_iff_exists'.1 (hn hk)
      simp only [evaluate, filled, hk, hvalue, Option.getD_some]
    | filter =>
      simp only [evaluate, filled, hk, hall]
      cases branches.isEmpty <;> rfl
    | _ => simp only [evaluate, filled, hk, hall]

theorem evaluate_all_eq_filled (branches : List (Branch Kind))
    (h : ∀ n ∈ Branch.preorder.preorders branches, n.kind = .var → args.get? (varName n) ≠ none) :
    evaluate.all args branches = .ok (filled.all args branches) := by
  cases branches with
  | nil => rw [evaluate.all, filled.all]
  | cons b rest =>
    obtain ⟨hb, hrest⟩ := List.forall_mem_append.1 h
    rw [evaluate.all, evaluate_eq_filled b hb, evaluate_all_eq_filled rest hrest, filled.all]
    rfl

end

/-! ## Rendering a section -/

/-- What a branch emits renders as the branch evaluates. -/
theorem renderPieces_part (hb : b.Grows) (hall : ∀ n ∈ b.preorder, Regular n) :
    renderPieces (b.entries (piece · args)) = evaluate args b := by
  have hrow : renderPieces (Branch.entries.all (piece · args) [b]) = evaluate.all args [b] := by
    refine renderPieces_entries [b] (List.forall_mem_singleton.2 hb) ?_
    simpa [Branch.preorder.preorders] using hall
  rwa [evaluate_all_singleton, Branch.entries.all, Branch.entries.all, List.append_nil] at hrow

/-- Siblings that evaluate to a text evaluate to the texts of each of them. -/
theorem exists_texts {branches : List (Branch Kind)} {text : String}
    (h : evaluate.all args branches = .ok text) :
    ∃ texts, List.Forall₂ (fun b text => evaluate args b = .ok text) branches texts ∧
      text = String.join texts := by
  induction branches generalizing text with
  | nil =>
    rw [evaluate.all] at h
    exact ⟨[], .nil, (Except.ok.inj h).symm⟩
  | cons b rest ih =>
    rw [evaluate.all] at h
    obtain ⟨first, hfirst, h⟩ := bind_eq_ok_iff.1 h
    obtain ⟨more, hmore, h⟩ := bind_eq_ok_iff.1 h
    obtain ⟨texts, htexts, rfl⟩ := ih hmore
    refine ⟨first :: texts, .cons hfirst htexts, ?_⟩
    rw [String.join_cons]
    exact (Except.ok.inj h).symm

/-- Without sections below a section, all that is below it is in this section and in those that
enclose it. -/
theorem sections_below (h : t.Parsed) (hn : t.Has n) (hg : n.isGroup = false)
    (hk : n.kind = .optional) (hflat : ∀ m ∈ n.below, m.kind ≠ .optional) :
    ∀ m ∈ n.below, sections m = n :: sections n := by
  obtain ⟨rfl, hgenuine⟩ := NodeTree.has_iff.1 hn
  have hall : ∀ m ∈ n.below, m ∈ n.below ∧ (n.tree.Has m ∧ m.isGroup = false) ∧
      sections m = n :: sections n := by
    refine h.forall_below (P := fun m => m ∈ n.below ∧ (n.tree.Has m ∧ m.isGroup = false) ∧
      sections m = n :: sections n) hgenuine ?_ ?_
    · intro m hm
      have hsections := sections_child h hn hg hm
      rw [if_pos hk] at hsections
      exact ⟨h.mem_below_of_child hgenuine hm, h.has_child hn hm, hsections⟩
    · rintro k m ⟨hbelow, ⟨hhas, hgroup⟩, hsections⟩ hm
      have hstep := sections_child h hhas hgroup hm
      rw [if_neg (hflat k hbelow), hsections] at hstep
      exact ⟨h.mem_below_step hgenuine hbelow hm, h.has_child hhas hm, hstep⟩
  exact fun m hm => (hall m hm).2.2

/-- **How an optional section renders.** It is nothing if a variable is missing that is in no
further section. Else it is what its children render as, which is the text of its content with
the variables substituted if they all have values. -/
structure RendersAsSection (args : Bindings) (part : Branch Kind) : Prop where
  nothing : (∃ v ∈ part.head.below, Missing args (part.head :: sections part.head) v) →
    renderPieces (part.entries (piece · args)) = .ok ""
  something : (∀ v ∈ part.head.below, ¬Missing args (part.head :: sections part.head) v) →
    ∃ texts, List.Forall₂ (fun b text => renderPieces (b.entries (piece · args)) = .ok text)
      part.branches texts ∧ renderPieces (part.entries (piece · args)) = .ok (String.join texts)
  filled : (∀ v ∈ part.head.below, v.kind = .var → args.get? (varName v) ≠ none) →
    renderPieces (part.entries (piece · args)) = .ok (filled.all args part.branches)
  flat : (∀ m ∈ part.head.below, m.kind ≠ .optional) →
    (∃ v ∈ part.head.below, v.kind = .var ∧ args.get? (varName v) = none) →
    renderPieces (part.entries (piece · args)) = .ok ""

/-- What is below the head of a branch is in the branches of its children. -/
theorem below_head (h : t.Parsed) (hb : b.Grows) (hn : t.Has b.head) :
    b.head.below = Branch.preorder.preorders b.branches := by
  obtain ⟨htree, hgenuine⟩ := NodeTree.has_iff.1 hn
  have hparsed : b.head.tree.Parsed := htree ▸ h
  obtain ⟨b', hb', hhead, hbelow⟩ := hparsed.exists_below_eq hgenuine
  rwa [hb'.unique hb hhead] at hbelow

/-- **A section is nothing, or it is what its children evaluate to,** as one of its own variables
is missing or none is. -/
theorem renderPieces_section (h : t.Parsed) (hd : t.tokens.Drawn rules o) (hb : b.Grows)
    (hn : t.Has b.head) (hg : b.head.isGroup = false) (hk : b.head.kind = .optional)
    (hall : ∀ n ∈ b.preorder, Regular n) :
    ((∃ v ∈ b.head.below, Missing args (b.head :: sections b.head) v) ∧
      renderPieces (b.entries (piece · args)) = .ok "") ∨
    (∀ v ∈ b.head.below, ¬Missing args (b.head :: sections b.head) v) ∧
      ∃ text, evaluate.all args b.branches = .ok text ∧
        renderPieces (b.entries (piece · args)) = .ok text := by
  have hstopped : Stopped (Missing args _) _ (evaluate.all args b.branches) :=
    stopped_children h hn hg hb.heads fun part hpart hhas hgroup =>
      stopped_evaluate h hd (hb.branch hpart) hhas hgroup fun m hm =>
        hall m (Branch.mem_preorder_of_branch hpart hm)
  rw [if_pos hk, ← below_head h hb hn] at hstopped
  have hnode : Branch.node b.head b.branches = b := by
    cases b
    rfl
  have hcases := evaluate_optional hk hstopped
  rwa [hnode, ← renderPieces_part hb hall] at hcases

theorem rendersAsSection (h : t.Parsed) (hd : t.tokens.Drawn rules o) (hb : b.Grows)
    (hn : t.Has b.head) (hg : b.head.isGroup = false) (hk : b.head.kind = .optional)
    (hall : ∀ n ∈ b.preorder, Regular n) : RendersAsSection args b := by
  have hcases : (_ ∧ renderPieces (b.entries (piece · args)) = _) ∨ _ :=
    renderPieces_section h hd hb hn hg hk hall
  have hnothing : (∃ v ∈ b.head.below, Missing args (b.head :: sections b.head) v) →
      renderPieces (b.entries (piece · args)) = .ok "" := by
    rintro ⟨v, hv, hmissing⟩
    rcases hcases with ⟨-, hempty⟩ | ⟨hnone, -⟩
    · exact hempty
    · exact absurd hmissing (hnone v hv)
  have hsomething : (∀ v ∈ b.head.below, ¬Missing args (b.head :: sections b.head) v) →
      ∃ text, evaluate.all args b.branches = .ok text ∧
        renderPieces (b.entries (piece · args)) = .ok text := by
    intro hnone
    rcases hcases with ⟨⟨v, hv, hmissing⟩, -⟩ | ⟨-, htext⟩
    · exact absurd hmissing (hnone v hv)
    · exact htext
  refine ⟨hnothing, ?_, ?_, ?_⟩
  · intro hnone
    obtain ⟨text, htext, hout⟩ := hsomething hnone
    obtain ⟨texts, htexts, rfl⟩ := exists_texts htext
    refine ⟨texts, ?_, hout⟩
    refine ((List.forall₂_and_left _ _).2 ⟨fun _ hpart => hpart, htexts⟩).imp ?_
    rintro part text ⟨hpart, heval⟩
    rw [← heval]
    exact renderPieces_part (hb.branch hpart) fun m hm =>
      hall m (Branch.mem_preorder_of_branch hpart hm)
  · intro hset
    obtain ⟨text, htext, hout⟩ := hsomething fun v hv hmissing =>
      hset v hv hmissing.kind hmissing.value
    rw [below_head h hb hn] at hset
    rw [evaluate_all_eq_filled b.branches hset] at htext
    rw [hout, ← htext]
  · rintro hflat ⟨v, hv, hvar, hvalue⟩
    exact hnothing ⟨v, hv, hvar, sections_below h hn hg hk hflat v hv, hvalue⟩

/-- **What each section of a template renders as.** What the section emits stands in the output,
and its children make up its content. -/
theorem sections_render {source : String} {args : List (String × String)} {out : Assembly Piece}
    (h : compile source args = .ok out) :
    ∃ tree, grammar.read .default source.toList = .ok tree ∧
      ∀ n, tree.Has n → n.kind = .optional → ∃ part : Branch Kind, part.Grows ∧ part.head = n ∧
        (part.entries (piece · (.ofList args))).Stands out ∧
        ((part.branches.map Branch.head).map Node.text).flatten = n.content ∧
        RendersAsSection (.ofList args) part := by
  obtain ⟨tree, b, hcompiles⟩ := exists_compiles h
  have hparsed := parsed_of_read hcompiles.read
  obtain ⟨o, hd⟩ := drawn_of_read hcompiles.read
  refine ⟨tree, hcompiles.read, fun n hn hk => ?_⟩
  have hemitted := mem_emitted hcompiles.read hn (by simp [hk]) (by simp [hk])
  obtain ⟨-, hgroup⟩ := has_of_mem_emitted hcompiles.read hemitted
  rw [hcompiles.emitted] at hemitted
  obtain ⟨top, htop, hmem⟩ := Branch.mem_preorders.1 hemitted
  obtain ⟨hgrow, -⟩ := hcompiles.of_mem_tops htop
  obtain ⟨part, hpart, rfl, hsub, hstands⟩ :=
    hgrow.exists_part (piece · (.ofList args)) hmem
  have hregular : ∀ m ∈ part.preorder, Regular m := fun m hm =>
    hcompiles.regular m (Branch.mem_preorders.2 ⟨top, htop, hsub m hm⟩)
  obtain ⟨htree, hgenuine⟩ := NodeTree.has_iff.1 hn
  have hsome : part.head.children.value ≠ [] :=
    (hregular _ part.head_mem_preorder).optional hk
  refine ⟨part, hpart, rfl, ?_, ?_, rendersAsSection hparsed hd hpart hn hgroup hk hregular⟩
  · rw [hcompiles.out, output]
    exact Branch.stands_all htop hstands
  · rw [hpart.heads]
    exact (htree ▸ hparsed : part.head.tree.Parsed).content_eq_texts hgenuine hgroup hsome

/-- A template with a section in a section. -/
def nested : String := "\x7b?\x7b\x7bx\x7d\x7d\x7b?\x7b\x7by\x7d\x7d?\x7d?\x7d"

theorem render_nested : render nested [("x", "1")] = .ok "1" := by cbv

theorem sections_render_nested :
    ∃ out, compile nested [("x", "1")] = .ok out ∧
      ∃ tree, grammar.read .default nested.toList = .ok tree ∧
        ∀ n, tree.Has n → n.kind = .optional → ∃ part : Branch Kind, part.Grows ∧ part.head = n ∧
          (part.entries (piece · (.ofList [("x", "1")]))).Stands out ∧
          ((part.branches.map Branch.head).map Node.text).flatten = n.content ∧
          RendersAsSection (.ofList [("x", "1")]) part := by
  obtain ⟨out, hout, -⟩ := bind_eq_ok_iff.1 render_nested
  exact ⟨out, hout, sections_render hout⟩

/-- The root of the sample is a section, and a variable `y` is below it. -/
theorem read_nested : ∃ tree, grammar.read .default nested.toList = .ok tree ∧
    tree.root.kind = .optional ∧ tree.root.isGroup = false ∧
      ∃ v ∈ tree.root.below, v.kind = .var ∧ varName v = "y" := by
  obtain ⟨tree, hread, htree⟩ := TokenTree.exists_ok_of_any
    (x := grammar.read .default nested.toList)
    (p := fun tree => tree.root.kind == .optional && !tree.root.isGroup &&
      tree.root.below.any fun v => v.kind == .var && varName v == "y") (by cbv)
  simp only [Bool.and_eq_true, beq_iff_eq, Bool.not_eq_true', List.any_eq_true] at htree
  obtain ⟨⟨hkind, hgroup⟩, v, hv, hvar, hname⟩ := htree
  exact ⟨tree, hread, hkind, hgroup, v, hv, hvar, hname⟩

/-- **A section renders although a variable inside it is missing,** because that variable is in a
section of its own. -/
theorem nested_section_renders : ∃ out tree v, ∃ part : Branch Kind,
    compile nested [("x", "1")] = .ok out ∧ grammar.read .default nested.toList = .ok tree ∧
      tree.Has part.head ∧ part.Grows ∧ part.head.kind = .optional ∧ v ∈ part.head.below ∧
        v.kind = .var ∧ (Bindings.ofList [("x", "1")]).get? (varName v) = none ∧
          out = part.entries (piece · (.ofList [("x", "1")])) ∧ renderPieces out = .ok "1" := by
  obtain ⟨out, hout, htext⟩ := bind_eq_ok_iff.1 render_nested
  obtain ⟨tree, hread, hkind, hgroup, v, hv, hvar, hname⟩ := read_nested
  obtain ⟨tree', b, hcompiles⟩ := exists_compiles hout
  obtain rfl := Except.ok.inj (hread.symm.trans hcompiles.read)
  have hroot := hcompiles.root
  have hvalue : (Bindings.ofList [("x", "1")]).get? (varName v) = none := by
    rw [hname]
    decide
  have hentries : out = b.entries (piece · (.ofList [("x", "1")])) := by
    have htops : b.tops = [b] := by
      unfold Branch.tops
      rw [hroot, hgroup, if_neg (by simp)]
    rw [hcompiles.out, output, htops, Branch.entries.all, Branch.entries.all, List.append_nil]
  exact ⟨out, tree, v, b, hout, hread, hroot ▸ tree.genuine_root, hcompiles.grows, hroot ▸ hkind,
    hroot ▸ hv, hvar, hvalue, hentries, htext⟩

end Template

end Bracketry
