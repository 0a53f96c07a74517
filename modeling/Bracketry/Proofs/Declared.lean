import Bracketry.Proofs.Runs
import Bracketry.Proofs.WaysUp

/-!
# Which declarations declare kinds

A declaration is resolved in stages, and each stage reports the first problem that it
finds. Taken together the stages say no more and no less than that the declaration is
well-formed, which is a condition on the declaration alone.

* `Declaration.WellFormed`: what a declaration has to be.
* `readMarks_eq_ok_iff`, `readCase_eq_ok_iff`, `findBase_eq_ok_iff`, `checkNames_eq_ok_iff`,
  `findParents_eq_ok_iff`: what each stage accepts, and what it makes of it.
* `Declaration.resolve_eq_ok_iff`: a declaration resolves to its table of kinds.
* `Declaration.resolves_iff`: **a declaration declares kinds exactly if it is well-formed.**
-/

namespace Bracketry

/-! ## Well-formed declarations -/

namespace Mark

/-- A mark that means something. -/
def IsKnown : Mark → Prop
  | other _ => False
  | _ => True

/-- The name that a mark gives. -/
def name? : Mark → Option String
  | rename name => some name
  | _ => none

/-- The case that a mark says is extended. -/
def parent? : Mark → Option String
  | parent ident => some ident
  | _ => none

end Mark

namespace DeclaredCase

/-- Whether a case is marked as the base. -/
def isBase (c : DeclaredCase) : Bool := decide (Mark.base ∈ c.marks)

/-- The case that a case is marked to extend; the last such mark counts. -/
def parent? (c : DeclaredCase) : Option String := (c.marks.filterMap Mark.parent?).getLast?

/-- The name of a case: the last one that a mark gives it, else its identifier. -/
def name (c : DeclaredCase) : String := (c.marks.filterMap Mark.name?).getLast?.getD c.ident

end DeclaredCase

namespace Declaration

/-- The position of the case that the case at a position extends: the one that it is
marked to extend, else the base. The base extends nothing. -/
def parentAt (d : Declaration) (i : Nat) : Option Nat :=
  d.cases[i]?.bind fun c =>
    match c.parent? with
    | some ident => d.cases.findIdx? fun other => other.ident == ident
    | none => if c.isBase then none else d.cases.findIdx? DeclaredCase.isBase

/-- The case at position `i` extends the case at position `j`. -/
def Extends (d : Declaration) (i j : Nat) : Prop := d.parentAt i = some j

/-- A declaration of kinds: a plain enumeration of cases without fields, with marks that mean
something. At most one case is the base, and it extends nothing. Names differ, what is
extended is there, and no case extends itself through its parents. -/
structure WellFormed (d : Declaration) : Prop where
  enumeration : d.shape = .enumeration
  plain : d.isGeneric = false
  fieldless : ∀ c ∈ d.cases, c.hasFields = false
  known : ∀ c ∈ d.cases, ∀ m ∈ c.marks, m.IsKnown
  base_free : ∀ c ∈ d.cases, ¬(c.isBase = true ∧ c.parent?.isSome = true)
  base_single : d.cases.Pairwise fun c c' => ¬(c.isBase = true ∧ c'.isBase = true)
  names : (d.cases.map DeclaredCase.name).Nodup
  parents : ∀ c ∈ d.cases, ∀ ident, c.parent? = some ident → ∃ other ∈ d.cases, other.ident = ident
  acyclic : ∀ i, ¬Relation.TransGen d.Extends i i

/-! ## Reading cases -/

/-- A case after some marks were read. -/
def KindCase.marked (c : KindCase) (marks : List Mark) : KindCase where
  ident := c.ident
  name := (marks.filterMap Mark.name?).getLast?.getD c.name
  isBase := c.isBase || decide (Mark.base ∈ marks)
  parent := (marks.filterMap Mark.parent?).getLast?.or c.parent

theorem readMarks_eq_ok_iff {c c' : KindCase} {marks : List Mark} :
    readMarks c marks = .ok c' ↔ (∀ m ∈ marks, m.IsKnown) ∧ c' = c.marked marks := by
  induction marks generalizing c with
  | nil => simp [readMarks, KindCase.marked, eq_comm]
  | cons m rest ih =>
    -- the rest is read on top of what the first mark makes of the case
    cases m with
    | base => simp [readMarks, ih, Mark.IsKnown, KindCase.marked, Mark.name?, Mark.parent?]
    | parent ident =>
      simp [readMarks, ih, Mark.IsKnown, KindCase.marked, Mark.name?, Mark.parent?,
        List.getLast?_cons]
    | rename name =>
      simp [readMarks, ih, Mark.IsKnown, KindCase.marked, Mark.name?, Mark.parent?,
        List.getLast?_cons]
    | other word => simp [readMarks, Mark.IsKnown]

end Declaration

namespace DeclaredCase

/-- A case as its marks say it is. -/
def read (c : DeclaredCase) : Declaration.KindCase := ⟨c.ident, c.name, c.isBase, c.parent?⟩

/-- What a case has to be for itself. -/
structure Readable (c : DeclaredCase) : Prop where
  fieldless : c.hasFields = false
  known : ∀ m ∈ c.marks, m.IsKnown
  base_free : ¬(c.isBase = true ∧ c.parent?.isSome = true)

end DeclaredCase

namespace Declaration

theorem readCase_eq_ok_iff (d : DeclaredCase) (c : KindCase) :
    readCase d = .ok c ↔ d.Readable ∧ c = d.read := by
  have hread : KindCase.marked ⟨d.ident, d.ident, false, none⟩ d.marks = d.read := by
    simp [KindCase.marked, DeclaredCase.read, DeclaredCase.name, DeclaredCase.isBase,
      DeclaredCase.parent?]
  unfold readCase
  cases hfields : d.hasFields with
  | true =>
    refine iff_of_false (fun h => by cases h) fun h => ?_
    rw [h.1.fieldless] at hfields
    cases hfields
  | false =>
    rw [if_neg Bool.false_ne_true]
    simp only [bind_eq_ok_iff, readMarks_eq_ok_iff, hread]
    have hfree : (d.read.isBase && d.read.parent.isSome) = true ↔
        d.isBase = true ∧ d.parent?.isSome = true := Bool.and_eq_true_iff
    constructor
    · rintro ⟨_, ⟨hknown, rfl⟩, h⟩
      by_cases hboth : (d.read.isBase && d.read.parent.isSome) = true
      · rw [if_pos hboth] at h
        cases h
      · rw [if_neg hboth] at h
        cases h
        exact ⟨⟨hfields, hknown, fun hb => hboth (hfree.2 hb)⟩, rfl⟩
    · rintro ⟨hd, rfl⟩
      refine ⟨d.read, ⟨hd.known, rfl⟩, ?_⟩
      rw [if_neg fun hboth => hd.base_free (hfree.1 hboth)]

/-! ## The base and the names -/

/-- Not both of two cases are marked as the base. -/
def NotBoth (c c' : KindCase) : Prop := ¬(c.isBase = true ∧ c'.isBase = true)

/-- Without two bases, a position of the base is where the base is found. -/
theorem findIdx?_isBase {cases : List KindCase} (h : cases.Pairwise NotBoth) {i : Nat} {c : KindCase}
    (hi : cases[i]? = some c) (hc : c.isBase = true) : cases.findIdx? KindCase.isBase = some i := by
  obtain ⟨hlt, rfl⟩ := List.getElem?_eq_some_iff.1 hi
  refine List.findIdx?_eq_some_iff_getElem.2 ⟨hlt, hc, fun j hj hbase => ?_⟩
  exact List.pairwise_iff_getElem.1 h j i (by omega) hlt hj ⟨hbase, hc⟩

theorem findBase_eq_ok_iff {cases : List KindCase} {base : Option Nat} :
    findBase cases = .ok base ↔ cases.Pairwise NotBoth ∧ base = cases.findIdx? KindCase.isBase := by
  unfold findBase
  cases hfind : cases.findIdx? KindCase.isBase with
  | none =>
    have hnone := List.findIdx?_eq_none_iff.1 hfind
    have hpair : cases.Pairwise NotBoth :=
      List.pairwise_of_forall_mem_list fun c hc _ _ hboth => by
        rw [hnone c hc] at hboth
        exact Bool.false_ne_true hboth.1
    simp [hpair, eq_comm]
  | some i =>
    obtain ⟨hi, hbase, hbefore⟩ := List.findIdx?_eq_some_iff_getElem.1 hfind
    cases hany : (cases.drop (i + 1)).any KindCase.isBase with
    | true =>
      refine iff_of_false (by simp [hany]) fun h => ?_
      obtain ⟨c, hc, hcbase⟩ := List.any_eq_true.1 hany
      obtain ⟨j, hj, rfl⟩ := List.getElem_of_mem hc
      rw [List.getElem_drop] at hcbase
      exact List.pairwise_iff_getElem.1 h.1 i (i + 1 + j) hi _ (by omega) ⟨hbase, hcbase⟩
    | false =>
      -- no base stands before the first one, and none behind it
      have hpair : cases.Pairwise NotBoth := by
        refine List.pairwise_iff_getElem.2 fun j k hj hk hjk hboth => ?_
        have hij : i ≤ j := Nat.le_of_not_lt fun hji => hbefore j hji hboth.1
        have hmem : cases[k] ∈ cases.drop (i + 1) :=
          List.mem_drop_iff_getElem.2 ⟨k - (i + 1), by omega, by congr 1; omega⟩
        have hlate := List.any_eq_false.1 hany _ hmem
        exact hlate hboth.2
      simp [hany, hpair, eq_comm]

theorem checkNames_eq_ok_iff {before cases : List KindCase} :
    checkNames before cases = .ok () ↔ (cases.map KindCase.name).Nodup ∧
      ∀ c ∈ cases, ∀ other ∈ before, other.name ≠ c.name := by
  induction cases generalizing before with
  | nil => simp [checkNames]
  | cons c rest ih =>
    rw [checkNames, List.map_cons, List.nodup_cons, List.forall_mem_cons]
    cases hfind : before.find? fun other => other.name == c.name with
    | some other =>
      refine iff_of_false (fun h => by cases h) fun h => ?_
      have hsame := List.find?_some hfind
      exact h.2.1 other (List.mem_of_find?_eq_some hfind) (beq_iff_eq.1 hsame)
    | none =>
      have hnew : ∀ other ∈ before, other.name ≠ c.name := by
        simpa using hfind
      dsimp only
      rw [ih]
      simp only [List.mem_append, List.mem_singleton, or_imp, forall_and, forall_eq, List.mem_map,
        not_exists, not_and]
      constructor
      · rintro ⟨hnodup, hbefore, hc⟩
        exact ⟨⟨fun c' hc' => Ne.symm (hc c' hc'), hnodup⟩, hnew, hbefore⟩
      · rintro ⟨⟨hc, hnodup⟩, -, hbefore⟩
        exact ⟨hnodup, hbefore, fun c' hc' => Ne.symm (hc c' hc')⟩

/-! ## The parents -/

section Parents

variable {d : Declaration} {i : Nat} {c : DeclaredCase}

/-- What a case is marked to extend is there. -/
def HasParent (d : Declaration) (c : DeclaredCase) : Prop :=
  ∀ ident, c.parent? = some ident → ∃ other ∈ d.cases, other.ident = ident

theorem findIdx?_read_ident (ident : String) :
    ((d.cases.map DeclaredCase.read).findIdx? fun other => other.ident == ident) =
      d.cases.findIdx? fun other => other.ident == ident :=
  List.findIdx?_map

theorem findIdx?_read_isBase : (d.cases.map DeclaredCase.read).findIdx? KindCase.isBase =
    d.cases.findIdx? DeclaredCase.isBase :=
  List.findIdx?_map

theorem parentAt_of_marked (hi : d.cases[i]? = some c) {ident : String}
    (hparent : c.parent? = some ident) :
    d.parentAt i = d.cases.findIdx? fun other => other.ident == ident := by
  rw [parentAt, hi, Option.bind_some, hparent]

/-- A case that is not marked to extend another extends the base, if it is not the base. -/
theorem parentAt_of_unmarked (hsingle : (d.cases.map DeclaredCase.read).Pairwise NotBoth)
    (hi : d.cases[i]? = some c) (hparent : c.parent? = none) :
    d.parentAt i = if d.cases.findIdx? DeclaredCase.isBase = some i then none
      else d.cases.findIdx? DeclaredCase.isBase := by
  rw [parentAt, hi, Option.bind_some, hparent]
  dsimp only
  cases hbase : c.isBase with
  | true =>
    have hread : (d.cases.map DeclaredCase.read)[i]? = some c.read := by
      rw [List.getElem?_map, hi]
      rfl
    have hfind := findIdx?_isBase hsingle hread hbase
    rw [findIdx?_read_isBase] at hfind
    rw [if_pos rfl, if_pos hfind]
  | false =>
    have hother : d.cases.findIdx? DeclaredCase.isBase ≠ some i := by
      intro hfind
      obtain ⟨hlt, hmarked, -⟩ := List.findIdx?_eq_some_iff_getElem.1 hfind
      obtain ⟨_, rfl⟩ := List.getElem?_eq_some_iff.1 hi
      rw [hbase] at hmarked
      cases hmarked
    rw [if_neg Bool.false_ne_true, if_neg hother]

theorem findParent_eq_ok_iff (hsingle : (d.cases.map DeclaredCase.read).Pairwise NotBoth)
    (hi : d.cases[i]? = some c) {p : Option Nat} :
    findParent (d.cases.map DeclaredCase.read) (d.cases.findIdx? DeclaredCase.isBase) i c.read = .ok p ↔
      d.HasParent c ∧ p = d.parentAt i := by
  unfold findParent
  cases hparent : c.parent? with
  | some ident =>
    have hread : c.read.parent = some ident := hparent
    rw [parentAt_of_marked hi hparent, hread]
    dsimp only
    rw [findIdx?_read_ident]
    cases hfind : d.cases.findIdx? fun other => other.ident == ident with
    | none =>
      refine iff_of_false (fun h => by cases h) fun h => ?_
      obtain ⟨other, hmem, hident⟩ := h.1 ident hparent
      have hnot := List.findIdx?_eq_none_iff.1 hfind other hmem
      rw [hident, beq_self_eq_true] at hnot
      cases hnot
    | some q =>
      obtain ⟨hq, hident, -⟩ := List.findIdx?_eq_some_iff_getElem.1 hfind
      have hhas : d.HasParent c := by
        intro ident' hident'
        rw [hparent] at hident'
        cases hident'
        exact ⟨_, List.getElem_mem hq, beq_iff_eq.1 hident⟩
      simp [hhas, eq_comm]
  | none =>
    have hread : c.read.parent = none := hparent
    have hhas : d.HasParent c := by
      intro ident hident
      rw [hparent] at hident
      cases hident
    rw [parentAt_of_unmarked hsingle hi hparent, hread]
    simp [hhas, eq_comm]

theorem findParents_eq_ok_iff (hsingle : (d.cases.map DeclaredCase.read).Pairwise NotBoth)
    {cs : List DeclaredCase} (hcs : ∀ j c, cs[j]? = some c → d.cases[i + j]? = some c)
    {parents : List (Option Nat)} :
    findParents (d.cases.map DeclaredCase.read) (d.cases.findIdx? DeclaredCase.isBase) i
        (cs.map DeclaredCase.read) = .ok parents ↔
      (∀ c ∈ cs, d.HasParent c) ∧ parents = (List.range' i cs.length).map d.parentAt := by
  induction cs generalizing i parents with
  | nil => simp [findParents, eq_comm]
  | cons c rest ih =>
    have hc : d.cases[i]? = some c := hcs 0 c rfl
    have hrest : ∀ j c, rest[j]? = some c → d.cases[i + 1 + j]? = some c := by
      intro j c hj
      rw [show i + 1 + j = i + (j + 1) by omega]
      exact hcs (j + 1) c hj
    rw [List.map_cons, findParents, List.forall_mem_cons, List.length_cons, List.range'_succ,
      List.map_cons]
    simp only [bind_eq_ok_iff, findParent_eq_ok_iff hsingle hc, ih hrest, Except.ok.injEq]
    constructor
    · rintro ⟨_, ⟨hfirst, rfl⟩, _, ⟨hall, rfl⟩, rfl⟩
      exact ⟨⟨hfirst, hall⟩, rfl⟩
    · rintro ⟨⟨hfirst, hall⟩, rfl⟩
      exact ⟨_, ⟨hfirst, rfl⟩, _, ⟨hall, rfl⟩, rfl⟩

end Parents

/-! ## Declarations that resolve -/

/-- The kinds that a declaration says there are. -/
def table (d : Declaration) : KindTable where
  name := d.name
  cases := d.cases.map DeclaredCase.read
  base := d.cases.findIdx? DeclaredCase.isBase
  parents := (List.range d.cases.length).map d.parentAt

/-- The table gives each position the parent that the cases say. -/
theorem join_parents (d : Declaration) (i : Nat) : d.table.parents[i]?.join = d.parentAt i := by
  unfold table
  dsimp only
  rw [List.getElem?_map]
  by_cases hi : i < d.cases.length
  · rw [List.getElem?_range hi]
    rfl
  · -- no case stands there, so nothing is above
    have hnone : d.cases[i]? = none := List.getElem?_eq_none (Nat.le_of_not_lt hi)
    have hrange : (List.range d.cases.length)[i]? = none := by
      refine List.getElem?_eq_none ?_
      rw [List.length_range]
      exact Nat.le_of_not_lt hi
    rw [hrange, parentAt, hnone]
    rfl

theorem above_table (d : Declaration) : Above d.table.parents = d.Extends := by
  funext i j
  rw [Above, join_parents, Extends]

theorem parentAt_lt {d : Declaration} {i p : Nat} (h : d.parentAt i = some p) :
    p < d.cases.length := by
  obtain ⟨c, -, hc⟩ := Option.bind_eq_some_iff.1 h
  cases hparent : c.parent? with
  | some ident =>
    rw [hparent] at hc
    exact (List.findIdx?_eq_some_iff_findIdx_eq.1 hc).1
  | none =>
    rw [hparent] at hc
    dsimp only at hc
    cases hbase : c.isBase with
    | true => rw [hbase] at hc; cases hc
    | false =>
      rw [hbase] at hc
      exact (List.findIdx?_eq_some_iff_findIdx_eq.1 hc).1

theorem length_parents (d : Declaration) : d.table.parents.length = d.cases.length := by
  rw [table, List.length_map, List.length_range]

theorem inRange_table (d : Declaration) : InRange d.table.parents := by
  intro i p h
  rw [length_parents]
  rw [above_table] at h
  exact parentAt_lt h

/-- The way up that a declaration is checked for is the one that its cases say. -/
theorem checkParents_table_iff (d : Declaration) :
    checkParents d.table.parents 0 d.table.cases = .ok () ↔ ∀ i, ¬Relation.TransGen d.Extends i i := by
  have hlength : d.table.cases.length = d.table.parents.length := by
    rw [length_parents, table, List.length_map]
  rw [checkParents_eq_ok_iff hlength d.inRange_table, above_table]

/-- A declaration that is no plain enumeration does not resolve. -/
theorem plain_of_resolve {d : Declaration} {t : KindTable} (h : d.resolve = .ok t) :
    d.shape = .enumeration ∧ d.isGeneric = false := by
  unfold resolve at h
  by_cases hshape : d.shape = .enumeration
  · rw [if_neg (not_not_intro hshape)] at h
    cases hgeneric : d.isGeneric with
    | true => rw [if_pos hgeneric] at h; cases h
    | false => exact ⟨hshape, rfl⟩
  · rw [if_pos hshape] at h
    cases h

/-- What the stages accept of a plain enumeration. -/
theorem resolve_plain_eq_ok_iff {d : Declaration} {t : KindTable} (hshape : d.shape = .enumeration)
    (hplain : d.isGeneric = false) :
    d.resolve = .ok t ↔ ((∀ c ∈ d.cases, c.Readable) ∧
      (d.cases.map DeclaredCase.read).Pairwise NotBoth ∧ (d.cases.map DeclaredCase.name).Nodup ∧
      (∀ c ∈ d.cases, d.HasParent c) ∧ ∀ i, ¬Relation.TransGen d.Extends i i) ∧ t = d.table := by
  have hall : ∀ j c, d.cases[j]? = some c → d.cases[0 + j]? = some c := by
    intro j c hj
    rwa [Nat.zero_add]
  have hnames : checkNames [] (d.cases.map DeclaredCase.read) = .ok () ↔
      (d.cases.map DeclaredCase.name).Nodup := by
    rw [checkNames_eq_ok_iff, List.map_map, and_iff_left fun _ _ _ hother => by cases hother]
    rfl
  unfold resolve
  rw [if_neg (not_not_intro hshape), if_neg (Bool.not_eq_true _ ▸ hplain)]
  simp only [bind_eq_ok_iff, mapM_eq_ok_iff readCase_eq_ok_iff, findBase_eq_ok_iff,
    Except.ok.injEq]
  constructor
  · rintro ⟨_, ⟨hread, rfl⟩, _, ⟨hsingle, rfl⟩, ⟨⟩, hnodup, parents, hparents, ⟨⟩, hways, rfl⟩
    rw [findIdx?_read_isBase] at hparents ⊢
    rw [findParents_eq_ok_iff hsingle hall, ← List.range_eq_range'] at hparents
    obtain ⟨hhas, rfl⟩ := hparents
    exact ⟨⟨hread, hsingle, hnames.1 hnodup, hhas, d.checkParents_table_iff.1 hways⟩, rfl⟩
  · rintro ⟨⟨hread, hsingle, hnodup, hhas, hacyclic⟩, rfl⟩
    refine ⟨_, ⟨hread, rfl⟩, _, ⟨hsingle, rfl⟩, (), hnames.2 hnodup, d.table.parents, ?_, (),
      d.checkParents_table_iff.2 hacyclic, ?_⟩
    · rw [findIdx?_read_isBase, findParents_eq_ok_iff hsingle hall, ← List.range_eq_range']
      exact ⟨hhas, rfl⟩
    · rw [findIdx?_read_isBase]
      rfl

/-- **A well-formed declaration resolves to its table of kinds,** and no other resolves. -/
theorem resolve_eq_ok_iff {d : Declaration} {t : KindTable} :
    d.resolve = .ok t ↔ d.WellFormed ∧ t = d.table := by
  constructor
  · intro h
    obtain ⟨hshape, hplain⟩ := plain_of_resolve h
    obtain ⟨⟨hread, hsingle, hnames, hparents, hacyclic⟩, ht⟩ :=
      (resolve_plain_eq_ok_iff hshape hplain).1 h
    refine ⟨?_, ht⟩
    exact {
      enumeration := hshape
      plain := hplain
      fieldless := fun c hc => (hread c hc).fieldless
      known := fun c hc => (hread c hc).known
      base_free := fun c hc => (hread c hc).base_free
      base_single := List.pairwise_map.1 hsingle
      names := hnames
      parents := hparents
      acyclic := hacyclic }
  · rintro ⟨h, ht⟩
    have hread : ∀ c ∈ d.cases, c.Readable := fun c hc =>
      ⟨h.fieldless c hc, h.known c hc, h.base_free c hc⟩
    exact (resolve_plain_eq_ok_iff h.enumeration h.plain).2
      ⟨⟨hread, List.pairwise_map.2 h.base_single, h.names, h.parents, h.acyclic⟩, ht⟩

/-- **A declaration declares kinds exactly if it is well-formed.** -/
theorem resolves_iff (d : Declaration) : (∃ t, d.resolve = .ok t) ↔ d.WellFormed := by
  constructor
  · rintro ⟨t, ht⟩
    exact (resolve_eq_ok_iff.1 ht).1
  · intro h
    exact ⟨d.table, resolve_eq_ok_iff.2 ⟨h, rfl⟩⟩

end Declaration

end Bracketry
