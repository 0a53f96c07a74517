import Bracketry.Proofs.Kinship
import Bracketry.Proofs.Verdict

/-!
# Arguments do not shape a template

What a template compiles to is settled by its source: which tags there are, whether they are
allowed, and which pieces stand where. An argument is only looked up under the name of a
variable, and its value is put into the piece of that variable.

* `Assembly.mapItems_entries`: the entries of branches with their items changed.
* `Template.blank_piece`: **without its value, a piece does not depend on the arguments.**
* `Template.compile_independent`: **two runs of one source fail alike, or their outputs differ
  in values only,** and arguments that agree on the names of the variables give one result.
-/

namespace Bracketry

variable {K I J : Type}

/-! ## Changing the items of an assembly -/

namespace Assembly

/-- An assembly with every item changed, at any depth. -/
def mapItems (f : I → J) : Assembly I → Assembly J
  | [] => []
  | .item item :: rest => .item (f item) :: mapItems f rest
  | .nested entries :: rest => .nested (mapItems f entries) :: mapItems f rest

theorem mapItems_append (f : I → J) (a b : Assembly I) :
    (a ++ b : Assembly I).mapItems f = a.mapItems f ++ b.mapItems f := by
  induction a with
  | nil => simp only [List.nil_append, mapItems]
  | cons e rest ih =>
    cases e with
    | item item => simp only [List.cons_append, mapItems, ih]
    | nested entries => simp only [List.cons_append, mapItems, ih]

end Assembly

namespace Branch

variable {item item' : Node K → I}

mutual

/-- A branch whose items are changed has the changed items for its entries. -/
theorem mapItems_entries (f : I → J) (b : Branch K) :
    Assembly.mapItems f (b.entries item) = b.entries fun n => f (item n) := by
  cases b with
  | node head branches =>
    have hinner := mapItems_entries_all f branches
    rw [entries, entries]
    cases branches with
    | nil => simp [Assembly.mapItems]
    | cons b rest => simp [Assembly.mapItems, hinner]

theorem mapItems_entries_all (f : I → J) (branches : List (Branch K)) :
    Assembly.mapItems f (entries.all item branches) = entries.all (fun n => f (item n)) branches := by
  cases branches with
  | nil => simp [entries.all, Assembly.mapItems]
  | cons b rest =>
    rw [entries.all, Assembly.mapItems_append, mapItems_entries f b, mapItems_entries_all f rest,
      entries.all]

end

mutual

/-- The entries of a branch depend on the items of its nodes only. -/
theorem entries_congr (b : Branch K) (h : ∀ n ∈ b.preorder, item n = item' n) :
    b.entries item = b.entries item' := by
  cases b with
  | node head branches =>
    obtain ⟨hhead, hbelow⟩ := List.forall_mem_cons.1 h
    rw [entries, entries, hhead, entries_all_congr branches hbelow]

theorem entries_all_congr (branches : List (Branch K))
    (h : ∀ n ∈ preorder.preorders branches, item n = item' n) :
    entries.all item branches = entries.all item' branches := by
  cases branches with
  | nil => rw [entries.all, entries.all]
  | cons b rest =>
    obtain ⟨hb, hrest⟩ := List.forall_mem_append.1 h
    rw [entries.all, entries.all, entries_congr b hb, entries_all_congr rest hrest]

end

end Branch

/-! ## Two runs of a template -/

namespace Template

/-- A piece without the value of its variable. -/
def Piece.blank : Piece → Piece
  | .value name _ => .value name none
  | piece => piece

/-- **Without its value, a piece does not depend on the arguments.** -/
theorem blank_piece (n : Node Kind) (args args' : Bindings) :
    (piece n args).blank = (piece n args').blank := by
  unfold piece
  cases n.kind with
  | var => rfl
  | _ => rfl

/-- The piece of a node depends on the argument of its name only, and on none unless the node
is a variable. -/
theorem piece_congr {n : Node Kind} {args args' : Bindings}
    (h : n.kind = .var → args.get? (varName n) = args'.get? (varName n)) :
    piece n args = piece n args' := by
  unfold piece
  by_cases hvar : n.kind = .var
  · rw [hvar, h hvar]
  · cases hk : n.kind with
    | var => exact absurd hk hvar
    | _ => rfl

theorem blank_output (b : Branch Kind) (args args' : List (String × String)) :
    Assembly.mapItems Piece.blank (output b args) =
      Assembly.mapItems Piece.blank (output b args') := by
  unfold output
  rw [Branch.mapItems_entries_all, Branch.mapItems_entries_all]
  exact Branch.entries_all_congr b.tops fun n _ => blank_piece n _ _

/-- **Two runs of one source fail alike, or their outputs differ in values only.** If the
arguments agree on the names of the variables of the source, the results are the same, compiled
and rendered. -/
theorem compile_independent (source : String) (args args' : List (String × String)) :
    ((∃ e, compile source args = .error e ∧ compile source args' = .error e) ∨
      ∃ out out', compile source args = .ok out ∧ compile source args' = .ok out' ∧
        out.mapItems Piece.blank = out'.mapItems Piece.blank) ∧
    ((∀ tree n, grammar.read .default source.toList = .ok tree → tree.Has n → n.kind = .var →
        (Bindings.ofList args).get? (varName n) = (Bindings.ofList args').get? (varName n)) →
      compile source args = compile source args' ∧ render source args = render source args') := by
  cases hread : grammar.read .default source.toList with
  | error e =>
    have hargs := compile_eq_error hread args
    have hargs' := compile_eq_error hread args'
    refine ⟨.inl ⟨_, hargs, hargs'⟩, fun _ => ?_⟩
    rw [render, render, hargs, hargs']
    exact ⟨rfl, rfl⟩
  | ok tree =>
    have hparsed := parsed_of_read hread
    obtain ⟨b, hb, hroot, hsize⟩ := hparsed.exists_branch
    have hargs := compile_eq hread hb hroot args
    have hargs' := compile_eq hread hb hroot args'
    constructor
    · cases hjudge : forM tree.emitted grammar.judge with
      | error e =>
        rw [hjudge] at hargs hargs'
        exact .inl ⟨_, hargs, hargs'⟩
      | ok _ =>
        rw [hjudge] at hargs hargs'
        exact .inr ⟨_, _, hargs, hargs', blank_output b args args'⟩
    · intro hagree
      have houtput : output b args = output b args' := by
        refine Branch.entries_all_congr b.tops fun n hn => piece_congr fun hvar => ?_
        obtain ⟨htree, hgenuine, -⟩ := hparsed.of_mem_preorders hb hroot n hn
        exact hagree tree n rfl (NodeTree.has_iff.2 ⟨htree, hgenuine⟩) hvar
      have hcompile : compile source args = compile source args' := by rw [hargs, hargs', houtput]
      refine ⟨hcompile, ?_⟩
      rw [render, render, hcompile]

/-- The variable of the sample is called `y`. -/
theorem varName_shout {tree : NodeTree Kind} {n : Node Kind}
    (h : grammar.read .default shout.toList = .ok tree) (hn : tree.Has n) (hvar : n.kind = .var) :
    varName n = "y" := by
  obtain ⟨tokens, hscan, hnames⟩ := TokenTree.exists_ok_of_any
    (x := TokenTree.scan rules .default shout.toList)
    (p := fun tokens => ((List.range tokens.size).filterMap
      (NodeTree.ofTokens constraints tokens).node?).all
        fun n => n.kind != .var || varName n == "y") (by cbv)
  obtain ⟨tokens', hscan', rfl⟩ := of_read_eq_ok h
  obtain rfl := Except.ok.inj (hscan.symm.trans hscan')
  obtain ⟨-, -, htoken⟩ := NodeTree.node?_eq_some hn
  obtain ⟨hlt, -⟩ := Array.getElem?_eq_some_iff.1 htoken
  have hmem := List.mem_filterMap.2 ⟨n.id, List.mem_range.2 hlt, hn⟩
  simpa [hvar] using List.all_eq_true.1 hnames n hmem

/-- Of the arguments of a template only those of its variables count. -/
theorem compile_independent_shout :
    (∀ tree n, grammar.read .default shout.toList = .ok tree → tree.Has n → n.kind = .var →
      (Bindings.ofList [("y", "1")]).get? (varName n) =
        (Bindings.ofList [("y", "1"), ("z", "2")]).get? (varName n)) ∧
    compile shout [("y", "1")] = compile shout [("y", "1"), ("z", "2")] ∧
    render shout [("y", "1")] = render shout [("y", "1"), ("z", "2")] := by
  have hagree : ∀ tree n, grammar.read .default shout.toList = .ok tree → tree.Has n →
      n.kind = .var → (Bindings.ofList [("y", "1")]).get? (varName n) =
        (Bindings.ofList [("y", "1"), ("z", "2")]).get? (varName n) := by
    intro tree n hread hn hvar
    rw [varName_shout hread hn hvar]
    decide
  exact ⟨hagree, (compile_independent shout _ _).2 hagree⟩

end Template

end Bracketry
