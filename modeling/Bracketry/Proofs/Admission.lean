import Bracketry.Proofs.Descendants
import Bracketry.Proofs.Mandatory
import Bracketry.Proofs.Verdict

/-!
# Which templates compile

A check of a node with mandatory kinds looks at what is below the node until these kinds are
met. In an optional section a variable is mandatory and plain text is allowed beside it, so a
section passes if it begins with plain text and then has a variable. What stands behind that
variable is not looked at.

* `Constraints.checkFrom_eq_ok_iff`: **a check with mandatory kinds passes if some first
  descendants are all allowed and meet these kinds.**
* `Template.mem_emitted`: a template emits all its nodes except a group and empty literals.
* `Template.judge_eq_ok_iff`: the nodes that pass are the admissible ones.
* `Template.compile_accepts_iff`: **a template compiles if it can be read and its nodes are
  admissible.**
* `Template.compile_admits_filter`: a section may hold a filter behind its first variable.
-/

namespace Bracketry

/-! ## Checks that end early -/

section

variable {K : Type} [DecidableEq K] [Taxonomy K]

namespace Constraints

/-- **A check with mandatory kinds passes if some first descendants are all allowed and meet
these kinds.** The others are not looked at. -/
theorem checkFrom_eq_ok_iff {c : Constraints K} (hmandatory : c.mandatoryKinds ≠ [])
    {container : NodeInfo} {nodes : List (Node K)} {unmet : List K} (hunmet : unmet ≠ []) :
    (c.checkFrom container unmet nodes).value = .ok () ↔
      ∃ first rest, nodes = first ++ rest ∧ (∀ n ∈ first, c.allows n.kind = true) ∧
        meetAll (first.map Node.kind) unmet = [] := by
  induction nodes generalizing unmet with
  | nil =>
    constructor
    · intro h
      simp [checkFrom, hunmet] at h
    · rintro ⟨first, rest, hnodes, -, hmet⟩
      obtain ⟨rfl, -⟩ := List.append_eq_nil_iff.1 hnodes.symm
      exact absurd hmet hunmet
  | cons n nodes ih =>
    rw [checkFrom]
    simp only [Look.value_bind]
    by_cases hallowed : c.allows n.kind = true
    · rw [if_pos hallowed]
      have hsome : c.mandatoryKinds.isEmpty = false := by simpa using hmandatory
      by_cases hmet : meet n.kind unmet = []
      · -- this descendant meets the last mandatory kind
        refine iff_of_true ?_ ⟨[n], nodes, rfl, by simpa using hallowed, hmet⟩
        simp [hsome, hmet]
      · have hmore := ih hmet
        simp only [hsome, List.isEmpty_iff, hmet, Bool.not_false, Bool.true_and, if_false]
        rw [hmore]
        constructor
        · rintro ⟨first, rest, rfl, hall, hfirst⟩
          exact ⟨n :: first, rest, rfl, List.forall_mem_cons.2 ⟨hallowed, hall⟩, hfirst⟩
        · rintro ⟨first, rest, hnodes, hall, hfirst⟩
          cases first with
          | nil => exact absurd hfirst hunmet
          | cons m first =>
            obtain ⟨rfl, rfl⟩ := List.cons.inj hnodes
            exact ⟨first, rest, rfl, (List.forall_mem_cons.1 hall).2, hfirst⟩
    · rw [if_neg hallowed]
      constructor
      · intro h
        cases h
      · rintro ⟨first, rest, hnodes, hall, hfirst⟩
        cases first with
        | nil => exact absurd hfirst hunmet
        | cons m first =>
          obtain ⟨rfl, -⟩ := List.cons.inj hnodes
          exact absurd (List.forall_mem_cons.1 hall).1 hallowed

theorem check_eq_ok_iff {c : Constraints K} (hmandatory : c.mandatoryKinds ≠ []) {n : Node K} :
    (c.check n).value = .ok () ↔
      ∃ first rest, n.below = first ++ rest ∧ (∀ m ∈ first, c.allows m.kind = true) ∧
        meetAll (first.map Node.kind) c.mandatoryKinds = [] :=
  checkFrom_eq_ok_iff hmandatory hmandatory

end Constraints

/-! ## Kinds of tokens -/

namespace TokenTree.Drawn

omit [DecidableEq K] [Taxonomy K]

variable {rules : Ruleset K} {t : TokenTree K} {o : Outline K} {i : Nat} {token : Token K}

/-- A token that is of another kind than groups and literals is a tag. -/
theorem proper_of_kind (h : t.Drawn rules o) (hi : t.tokens[i]? = some token)
    (hliteral : token.kind ≠ rules.literalKind) (hgroup : token.kind ≠ rules.groupKind) :
    t.Proper token := by
  obtain ⟨c, hc, rfl⟩ := h.token_stands hi
  cases hc with
  | @own site hs =>
    obtain ⟨segment, parent, start, id, next⟩ := site
    cases segment with
    | literal plain swallowed => exact absurd rfl hliteral
    | tag tag content closing => exact ⟨rfl, fun h => by cases h⟩
    | nest tag seed first siblings closing => exact ⟨rfl, fun h => by cases h⟩
  | seed _ => exact absurd rfl hliteral
  | @group tag seed closing first siblings parent start id next _ =>
    have hab := Site.abut_nest tag seed closing first siblings parent start id next
    rw [Course.token_group _ _ hab] at hgroup
    exact absurd rfl hgroup
  | root _ =>
    rw [Course.token_group _ none o.abut_sites] at hgroup
    exact absurd rfl hgroup

end TokenTree.Drawn

end

/-! ## Nodes of a template -/

namespace Template

/-- Some nodes begin with plain text, if any, and then have a variable. -/
def VariableFirst (nodes : List (Node Kind)) : Prop :=
  ∃ texts v rest, nodes = texts ++ v :: rest ∧ (∀ m ∈ texts, m.kind = .text) ∧ v.kind = .var

/-- A node that a template may have. A variable has nothing inside, a filter names a
transformation, and in an optional section a variable stands before any other tag. -/
structure Admissible (n : Node Kind) : Prop where
  var : n.kind = .var → n.children.value = []
  filter : n.kind = .filter → (filterOf? n).isSome
  optional : n.kind = .optional → VariableFirst n.below

/-- Nodes with a variable before any other tag are those that begin with text and variables, at
least one of them a variable. -/
theorem variableFirst_iff {nodes : List (Node Kind)} :
    VariableFirst nodes ↔ ∃ first rest, nodes = first ++ rest ∧
      (∀ m ∈ first, m.kind = .text ∨ m.kind = .var) ∧ ∃ m ∈ first, m.kind = .var := by
  constructor
  · rintro ⟨texts, v, rest, rfl, htexts, hv⟩
    refine ⟨texts ++ [v], rest, by simp, ?_, v, by simp, hv⟩
    intro m hm
    rcases List.mem_append.1 hm with hm | hm
    · exact .inl (htexts m hm)
    · obtain rfl := List.mem_singleton.1 hm
      exact .inr hv
  · rintro ⟨first, rest, rfl, hkinds, v, hmem, hv⟩
    obtain ⟨w, hfind⟩ := Option.isSome_iff_exists.1
      (List.find?_isSome (p := fun m => m.kind == .var).2 ⟨v, hmem, by simp [hv]⟩)
    obtain ⟨hw, texts, after, rfl, htexts⟩ := List.find?_eq_some_iff_append.1 hfind
    refine ⟨texts, w, after ++ rest, by simp, ?_, by simpa using hw⟩
    intro m hm
    have hnot := htexts m hm
    exact (hkinds m (List.mem_append_left _ hm)).resolve_right (by simpa using hnot)

/-- Only variables meet a mandatory variable. -/
theorem meetAll_var_eq_nil_iff {kinds : List Kind} :
    Constraints.meetAll kinds [.var] = [] ↔ .var ∈ kinds := by
  induction kinds with
  | nil => simp [Constraints.meetAll]
  | cons k rest ih =>
    have hstep : Constraints.meetAll (k :: rest) [.var] =
        Constraints.meetAll rest (Constraints.meet k [.var]) := rfl
    rw [hstep, List.mem_cons]
    by_cases hk : k = .var
    · have hmet : Constraints.meet k [.var] = [] := by
        rw [hk]
        decide
      rw [hmet, Constraints.meetAll_nil]
      simp [hk]
    · have hunmet : Constraints.meet k [.var] = [.var] := by
        cases k <;> first | rfl | exact absurd rfl hk
      rw [hunmet, ih]
      simp [Ne.symm hk]

/-- **A section passes its check if a variable stands before any other tag in it.** -/
theorem check_section_iff {c : Constraints Kind} (hc : constraints .optional = some c)
    {n : Node Kind} : (c.check n).value = .ok () ↔ VariableFirst n.below := by
  obtain rfl := Option.some.inj hc
  have hallows : ∀ k, ((((Constraints.fresh.disallow .node).allow .text).allow .var).require
      .var : Constraints Kind).allows k = true ↔ k = .text ∨ k = .var := by
    intro k
    cases k <;> decide
  have hmandatory : ((((Constraints.fresh.disallow .node).allow .text).allow .var).require
      .var : Constraints Kind).mandatoryKinds = [.var] := by decide
  rw [Constraints.check_eq_ok_iff (by rw [hmandatory]; simp), variableFirst_iff, hmandatory]
  simp only [hallows, meetAll_var_eq_nil_iff, List.mem_map]

section

variable {tokens : TokenTree Kind} {n : Node Kind}

/-- **The nodes that pass are the admissible ones.** -/
theorem judge_eq_ok_iff (htree : n.tree = .ofTokens constraints tokens) (hparsed : n.tree.Parsed)
    (hn : n.Genuine) : grammar.judge n = .ok () ↔ Admissible n := by
  have hchildren : n.tree.childIds n.id = [] ↔ n.children.value = [] := by
    rw [hparsed.childIds_eq_map hn, List.map_eq_nil_iff]
  have hconstraints := constraints_eq htree hn
  have hallowed : (grammar.isAllowed n).value = (isAllowed n).value := rfl
  rw [Grammar.judge_eq_ok_iff, hallowed]
  simp only [isAllowed, Node.check, hconstraints, Look.value_bind]
  cases hk : n.kind with
  | var =>
    constructor
    · intro h
      have hids : n.tree.childIds n.id = [] := by simpa [constraints, Node.hasChildren] using h
      exact ⟨fun _ => hchildren.1 hids, by simp [hk], by simp [hk]⟩
    · intro h
      have hids := hchildren.2 (h.var hk)
      simp [constraints, Node.hasChildren, hids]
  | filter =>
    constructor
    · intro h
      exact ⟨by simp [hk], fun _ => by simpa [constraints] using h, by simp [hk]⟩
    · intro h
      simpa [constraints] using h.filter hk
  | optional =>
    obtain ⟨c, hc⟩ : ∃ c, constraints .optional = some c := ⟨_, rfl⟩
    rw [hc]
    constructor
    · intro h
      have hcheck : (c.check n).value = .ok () := by
        cases hv : (c.check n).value with
        | error e => simp [hv] at h
        | ok _ => rfl
      exact ⟨by simp [hk], by simp [hk], fun _ => (check_section_iff hc).1 hcheck⟩
    · intro h
      simp [(check_section_iff hc).2 (h.optional hk)]
  | _ => exact ⟨fun _ => ⟨by simp [hk], by simp [hk], by simp [hk]⟩, fun _ => rfl⟩

/-- **A template emits its nodes,** except a group at the root and what is no child: the groups
inside tags and literals without text. -/
theorem mem_emitted {source : String} {tree : NodeTree Kind}
    (h : grammar.read .default source.toList = .ok tree) (hn : tree.Has n) (htext : n.kind ≠ .text)
    (hdocument : n.kind ≠ .document) : n ∈ tree.emitted := by
  obtain ⟨o, hd⟩ := drawn_of_read h
  obtain ⟨rfl, -, htoken⟩ := NodeTree.node?_eq_some hn
  have hproper : n.Proper := hd.proper_of_kind htoken htext hdocument
  have hmem := (parsed_of_read h).mem_root_below hn hproper
  unfold NodeTree.emitted
  by_cases hg : n.tree.root.isGroup = true
  · rw [if_pos hg]
    refine (List.mem_cons.1 hmem).resolve_left fun hroot => ?_
    have hgroup : n.isGroup = false := hproper.isGroup
    rw [hroot] at hgroup
    exact absurd hg (by simp [hgroup])
  · rw [if_neg hg]
    exact hmem

/-- What a template emits are nodes of its tree. -/
theorem has_of_mem_emitted {source : String} {tree : NodeTree Kind}
    (h : grammar.read .default source.toList = .ok tree) (hn : n ∈ tree.emitted) :
    tree.Has n ∧ n.isGroup = false := by
  have hparsed := parsed_of_read h
  obtain ⟨b, hb, hroot, hsize⟩ := hparsed.exists_branch
  rw [hparsed.emitted_eq_preorder hb hroot hsize] at hn
  obtain ⟨htree, hgenuine, hgroup⟩ := hparsed.of_mem_preorders hb hroot n hn
  exact ⟨NodeTree.has_iff.2 ⟨htree, hgenuine⟩, hgroup⟩

/-- The nodes of a template pass if they are all admissible. -/
theorem judge_emitted_iff {source : String} {tree : NodeTree Kind}
    (h : grammar.read .default source.toList = .ok tree) :
    (∀ n ∈ tree.emitted, grammar.judge n = .ok ()) ↔ ∀ n, tree.Has n → Admissible n := by
  have hparsed := parsed_of_read h
  have hjudge : ∀ n, tree.Has n → (grammar.judge n = .ok () ↔ Admissible n) := by
    intro n hn
    obtain ⟨tokens, -, rfl⟩ := of_read_eq_ok h
    obtain ⟨htree, hgenuine⟩ := NodeTree.has_iff.1 hn
    exact judge_eq_ok_iff htree (htree ▸ hparsed) hgenuine
  constructor
  · intro hall n hn
    by_cases hemitted : n ∈ tree.emitted
    · exact (hjudge n hn).1 (hall n hemitted)
    · -- what is not emitted is plain text or a group
      have hkind : n.kind = .text ∨ n.kind = .document := by
        by_contra hne
        obtain ⟨htext, hdocument⟩ := not_or.1 hne
        exact hemitted (mem_emitted h hn htext hdocument)
      rcases hkind with hk | hk
      · exact ⟨by simp [hk], by simp [hk], by simp [hk]⟩
      · exact ⟨by simp [hk], by simp [hk], by simp [hk]⟩
  · intro hall n hn
    obtain ⟨hhas, -⟩ := has_of_mem_emitted h hn
    exact (hjudge n hhas).2 (hall n hhas)

end

/-- **A template compiles if it can be read and its nodes are admissible,** whatever the
arguments. -/
theorem compile_accepts_iff (source : String) (args : List (String × String)) :
    (∃ out, compile source args = .ok out) ↔
      ∃ tree, grammar.read .default source.toList = .ok tree ∧ ∀ n, tree.Has n → Admissible n := by
  constructor
  · rintro ⟨out, h⟩
    obtain ⟨tree, b, hread, -, -, hjudge, -⟩ := compile_eq_ok_iff.1 h
    exact ⟨tree, hread, (judge_emitted_iff hread).1 hjudge⟩
  · rintro ⟨tree, hread, hall⟩
    obtain ⟨b, hb, hroot, -⟩ := (parsed_of_read hread).exists_branch
    exact ⟨output b args, compile_eq_ok_iff.2
      ⟨tree, b, hread, hb, hroot, (judge_emitted_iff hread).2 hall, rfl⟩⟩

/-- A template with a variable and then a filter in an optional section. -/
def mixed : String := "\x7b?\x7b\x7bx\x7d\x7d\x7b#upper y#\x7d?\x7d"

/-- **A section may hold a filter behind its first variable.** -/
theorem compile_admits_filter : ∃ out tree n m, compile mixed [("x", "1")] = .ok out ∧
    grammar.read .default mixed.toList = .ok tree ∧ tree.Has n ∧ n.kind = .optional ∧
      m ∈ n.below ∧ m.kind = .filter := by
  obtain ⟨out, hout, -⟩ := TokenTree.exists_ok_of_any (x := compile mixed [("x", "1")])
    (p := fun _ => true) (by cbv)
  obtain ⟨tree, hread, htree⟩ := TokenTree.exists_ok_of_any
    (x := grammar.read .default mixed.toList)
    (p := fun tree => tree.root.kind == .optional && tree.root.below.any fun m => m.kind == .filter)
    (by cbv)
  obtain ⟨hkind, hany⟩ := Bool.and_eq_true_iff.1 htree
  obtain ⟨m, hm, hfilter⟩ := List.any_eq_true.1 hany
  exact ⟨out, tree, tree.root, m, hout, hread, tree.genuine_root, by simpa using hkind, hm,
    by simpa using hfilter⟩

end Template

end Bracketry
