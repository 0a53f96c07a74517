import Bracketry.Proofs.Kinship
import Bracketry.Proofs.Mandatory

/-!
# What a verdict tells

A check of a node goes through its descendants in pre-order and ends in one of three ways: at a
descendant that is not allowed, as soon as the mandatory kinds are met, or behind the last
descendant. Each verdict is justified by the descendants that were looked at.

* `Constraints.Justified`: what has to hold of the descendants for each verdict.
* `Constraints.Justified.cons`: a descendant that is allowed keeps the justification of the
  descendants behind it.
* `Constraints.check_justified`: **the verdict on a node of a parsed tree is justified by its
  descendants in pre-order.**
* `Constraints.check_unlike_declared`: the kinds that a verdict lists as missing need not stand in
  the order of declaration.
-/

namespace Bracketry

variable {K : Type} [DecidableEq K] [Taxonomy K]

namespace Constraints

/-- A verdict is justified by the descendants of a container, in order, of which some mandatory
kinds are still to be met. -/
inductive Justified (c : Constraints K) (container : NodeInfo) (unmet : List K)
    (nodes : List (Node K)) : Except Error Unit → Prop
  /-- There are no mandatory kinds, and every descendant is allowed. -/
  | clear (hnone : c.mandatoryKinds = []) (hall : ∀ n ∈ nodes, c.allows n.kind = true) :
    Justified c container unmet nodes (.ok ())
  /-- Some first descendants are allowed, and each mandatory kind has one of its own among
  them. -/
  | met (first rest : List (Node K)) (hsome : c.mandatoryKinds ≠ []) (hsplit : nodes = first ++ rest)
    (hall : ∀ n ∈ first, c.allows n.kind = true)
    (hmet : Meetable unmet (first.map Node.kind)) :
    Justified c container unmet nodes (.ok ())
  /-- A descendant is the first that is not allowed, and those before it leave a mandatory kind
  unmet. Without mandatory kinds there is nothing that they could leave. -/
  | disallowed (before : List (Node K)) (child : Node K) (after : List (Node K))
    (hsplit : nodes = before ++ child :: after) (hall : ∀ n ∈ before, c.allows n.kind = true)
    (hchild : c.allows child.kind = false)
    (hunmet : c.mandatoryKinds ≠ [] → meetAll (before.map Node.kind) unmet ≠ []) :
    Justified c container unmet nodes (.error (.disallowed child.info container))
  /-- Every descendant is allowed. The listed kinds are some of the mandatory ones, in their order,
  and each of the others has a descendant of its own. -/
  | missing {left : List K} (hall : ∀ n ∈ nodes, c.allows n.kind = true) (hleft : left ≠ [])
    (hsub : left.Sublist unmet)
    (hothers : Meetable (unmet.filter (· ∉ left)) (nodes.map Node.kind)) :
    Justified c container unmet nodes (.error (.missing container (left.map Taxonomy.name)))

end Constraints

/-- If some of the kinds that a descendant leaves unmet can be met by the others, then together
with what it meets they can all be met. -/
theorem Meetable.filter_of_meet {p : K → Bool} {kind : K} {unmet kinds : List K}
    (h : Meetable ((Constraints.meet kind unmet).filter p) kinds) :
    Meetable (unmet.filter p) (kind :: kinds) := by
  rcases Constraints.meet_cases kind unmet with ⟨_, a, _, -, ha, -, hmeet⟩ | ⟨-, hmeet⟩
  · rw [hmeet] at h
    refine h.extend ha fun b hb hne => ?_
    obtain ⟨hmem, hb⟩ := List.mem_filter.1 hb
    exact List.mem_filter.2 ⟨(List.mem_erase_of_ne hne).2 hmem, hb⟩
  · rw [hmeet] at h
    exact h.skip

namespace Constraints

variable {c : Constraints K} {container : NodeInfo} {unmet : List K} {n : Node K}
  {nodes : List (Node K)} {verdict : Except Error Unit}

/-- **An allowed descendant keeps the verdict justified** that the descendants behind it have
with what it leaves unmet. -/
theorem Justified.cons (hn : c.allows n.kind = true)
    (h : c.Justified container (meet n.kind unmet) nodes verdict) :
    c.Justified container unmet (n :: nodes) verdict := by
  cases h with
  | clear hnone hall => exact .clear hnone (List.forall_mem_cons.2 ⟨hn, hall⟩)
  | met first rest hsome hsplit hall hmet =>
    refine .met (n :: first) rest hsome ?_ (List.forall_mem_cons.2 ⟨hn, hall⟩) hmet.of_meet
    rw [hsplit, List.cons_append]
  | disallowed before child after hsplit hall hchild hunmet =>
    refine .disallowed (n :: before) child after ?_ (List.forall_mem_cons.2 ⟨hn, hall⟩) hchild hunmet
    rw [hsplit, List.cons_append]
  | missing hall hleft hsub hothers =>
    exact .missing (List.forall_mem_cons.2 ⟨hn, hall⟩) hleft
      (hsub.trans (meet_sublist n.kind unmet)) hothers.filter_of_meet

/-- **A check that goes on with something unmet is justified** by the descendants from there
on. -/
theorem checkFrom_justified (hopen : c.mandatoryKinds ≠ [] → unmet ≠ [])
    (hclosed : c.mandatoryKinds = [] → unmet = []) :
    c.Justified container unmet nodes (c.checkFrom container unmet nodes).value := by
  induction nodes generalizing unmet with
  | nil =>
    by_cases hsome : c.mandatoryKinds = []
    · rw [hclosed hsome]
      exact .clear hsome fun _ hn => absurd hn List.not_mem_nil
    · have hunmet := hopen hsome
      have hvalue : (c.checkFrom container unmet []).value =
          .error (.missing container (unmet.map Taxonomy.name)) := by
        simp [checkFrom, hunmet]
      rw [hvalue]
      refine .missing (fun _ hn => absurd hn List.not_mem_nil) hunmet (List.Sublist.refl unmet) ?_
      -- every kind is listed, so no other is left to be met
      have hnone : unmet.filter (· ∉ unmet) = [] := List.filter_eq_nil_iff.2 (by simp)
      rw [hnone]
      exact .nil_left _
  | cons n rest ih =>
    rw [checkFrom]
    simp only [Look.value_bind]
    by_cases hallowed : c.allows n.kind = true
    · rw [if_pos hallowed]
      by_cases hdone : (!c.mandatoryKinds.isEmpty && (meet n.kind unmet).isEmpty) = true
      · -- the descendant meets the last mandatory kind
        rw [if_pos hdone]
        obtain ⟨hsome, hmet⟩ : c.mandatoryKinds ≠ [] ∧ meet n.kind unmet = [] := by
          simpa using hdone
        refine .met [n] rest hsome rfl (by simpa using hallowed) (.of_meet ?_)
        rw [hmet]
        exact .nil_left _
      · rw [if_neg hdone]
        refine .cons hallowed (ih ?_ ?_)
        · intro hsome hmet
          exact hdone (by simp [hsome, hmet])
        · intro hnone
          have hsub := meet_sublist n.kind unmet
          rw [hclosed hnone] at hsub ⊢
          exact List.sublist_nil.1 hsub
    · rw [if_neg hallowed]
      exact .disallowed [] n rest rfl (fun _ hn => absurd hn List.not_mem_nil)
        (by simpa using hallowed) hopen

/-- **The verdict on a node of a parsed tree is justified by its descendants in pre-order,**
whatever the constraints. The mandatory kinds stand in ascending order, and so do those of them that
a verdict lists as missing. -/
theorem check_justified (c : Constraints K) {n : Node K} (htree : n.tree.Parsed) (hn : n.Genuine) :
    ∃ b : Branch K, b.Grows ∧ b.head = n ∧
      c.Justified n.info c.mandatoryKinds (Branch.preorder.preorders b.branches)
        (c.check n).value := by
  obtain ⟨b, hb, hhead, hbelow⟩ := htree.exists_below_eq hn
  refine ⟨b, hb, hhead, ?_⟩
  rw [← hbelow]
  exact checkFrom_justified id id

end Constraints

namespace Template

/-- Where only filters are allowed and a variable is mandatory, the optional section behind the
filter is refused: the filter is no variable. -/
theorem check_justified_blocks : ∃ (t : NodeTree Kind) (c : Constraints Kind) (b : Branch Kind)
    (child : Node Kind), t.tokens.source = blocks ∧ t.Parsed ∧ t.root.Genuine ∧ b.Grows ∧
      b.head = t.root ∧ child.kind = .optional ∧
        (c.check t.root).value = .error (.disallowed child.info t.root.info) ∧
          c.Justified t.root.info [.var] (Branch.preorder.preorders b.branches)
            (c.check t.root).value := by
  obtain ⟨t, hsource, hparsed, hkinds⟩ := exists_blocks
  obtain ⟨filter, rest, hbelow, hfilter, hrest⟩ := List.map_eq_cons_iff.1 hkinds
  obtain ⟨child, nodes, rfl, hchild, -⟩ := List.map_eq_cons_iff.1 hrest
  obtain ⟨c, hc⟩ : ∃ c : Constraints Kind,
      c = ((Constraints.fresh.disallow .node).allow .filter).require .var := ⟨_, rfl⟩
  have hmandatory : c.mandatoryKinds = [.var] := by
    rw [hc]
    decide
  have hallowed : c.allows .filter = true := by
    rw [hc]
    decide
  have hrefused : c.allows .optional = false := by
    rw [hc]
    decide
  have hunmet : Constraints.meet .filter [Kind.var] = [.var] := by decide
  have hverdict : (c.check t.root).value = .error (.disallowed child.info t.root.info) := by
    simp [Constraints.check, Constraints.checkFrom, hbelow, hfilter, hchild, hmandatory, hallowed,
      hrefused, hunmet]
  obtain ⟨b, hb, hhead, hjustified⟩ := c.check_justified hparsed t.genuine_root
  rw [hmandatory] at hjustified
  exact ⟨t, c, b, child, hsource, hparsed, t.genuine_root, hb, hhead, hchild, hverdict, hjustified⟩

end Template

/-- Three kinds that compare against the order of their declaration. -/
inductive Downward
  | node
  | text
  | tag
  deriving DecidableEq, Repr

namespace Downward

instance : Taxonomy Downward where
  all := [.node, .text, .tag]
  mem_all := by intro k; cases k <;> decide
  all_nodup := by decide
  ascending := [.tag, .text, .node]
  ascending_perm := by decide
  base := some .node
  name
    | .node => "Node"
    | .text => "Text"
    | .tag => "Tag"
  parent
    | .node => none
    | _ => some .node
  height
    | .node => 0
    | _ => 1
  height_parent := by intro k p h; cases k <;> cases h <;> decide

end Downward

/-- Verdicts that do not go by what the mandatory kinds suggest. Where none is mandatory, a
descendant is refused although those before it, none at all, leave nothing unmet. And what is missing
is listed in ascending order, which is not the order of declaration. -/
theorem Constraints.check_unlike_declared :
    (∃ (t : NodeTree Template.Kind) (c : Constraints Template.Kind) (child : Node Template.Kind)
        (rest : List (Node Template.Kind)), t.tokens.source = Template.blocks ∧ t.Parsed ∧
      c.mandatoryKinds = [] ∧ t.root.below = [] ++ child :: rest ∧ meetAll [] c.mandatoryKinds = [] ∧
      (c.check t.root).value = .error (.disallowed child.info t.root.info)) ∧
    ∃ (t : NodeTree Downward) (c : Constraints Downward), t.tokens.source = ['a'] ∧ t.Parsed ∧
      Taxonomy.all.filter c.mandatory = [.text, .tag] ∧
      (c.check t.root).value = .error (.missing t.root.info ["Tag", "Text"]) ∧
      ¬∃ left : List Downward, left.Sublist (Taxonomy.all.filter c.mandatory) ∧
        (c.check t.root).value = .error (.missing t.root.info (left.map Taxonomy.name)) := by
  constructor
  · obtain ⟨t, hsource, hparsed, hkinds⟩ := Template.exists_blocks
    obtain ⟨child, rest, hbelow, hchild, -⟩ := List.map_eq_cons_iff.1 hkinds
    have hrefused : (Constraints.fresh.disallow .node).allows child.kind = false := by
      rw [hchild]
      decide
    refine ⟨t, Constraints.fresh.disallow .node, child, rest, hsource, hparsed, by decide, hbelow,
      by decide, ?_⟩
    simp [Constraints.check, Constraints.checkFrom, hbelow, hrefused]
  · obtain ⟨tokens, hscan, hbelow⟩ : ∃ tokens,
        TokenTree.scan (Ruleset.empty Downward.text Downward.node) .default ['a'] = .ok tokens ∧
          ((NodeTree.ofTokens (fun _ => none) tokens).root.below.map Node.kind == []) = true :=
      TokenTree.exists_ok_of_any (by cbv)
    obtain ⟨t, ht⟩ : ∃ t : NodeTree Downward, t = .ofTokens (fun _ => none) tokens := ⟨_, rfl⟩
    rw [← ht, beq_iff_eq, List.map_eq_nil_iff] at hbelow
    have hsource : t.tokens.source = ['a'] := by
      rw [ht]
      exact (TokenTree.scan_drawn hscan).1
    have hparsed : t.Parsed := ht ▸ .scan (fun _ => none) hscan
    obtain ⟨c, hc⟩ : ∃ c : Constraints Downward,
        c = (Constraints.fresh.require .text).require .tag := ⟨_, rfl⟩
    have hdeclared : Taxonomy.all.filter c.mandatory = [.text, .tag] := by
      rw [hc]
      decide
    have hmandatory : c.mandatoryKinds = [.tag, .text] := by
      rw [hc]
      decide
    have hverdict : (c.check t.root).value = .error (.missing t.root.info ["Tag", "Text"]) := by
      simp [Constraints.check, Constraints.checkFrom, hbelow, hmandatory, Taxonomy.name]
    refine ⟨t, c, hsource, hparsed, hdeclared, hverdict, ?_⟩
    rintro ⟨left, hsub, hleft⟩
    rw [hverdict] at hleft
    have hnames : left.map Taxonomy.name = ["Tag", "Text"] := by
      injection hleft with hleft
      injection hleft with _ hnames
      exact hnames.symm
    -- the names of kinds in the order of declaration are never in the order of the list
    have hall : ∀ l ∈ [Downward.text, .tag].sublists, l.map Taxonomy.name ≠ ["Tag", "Text"] := by
      decide
    rw [hdeclared] at hsub
    exact hall left (List.mem_sublists.2 hsub) hnames

end Bracketry
