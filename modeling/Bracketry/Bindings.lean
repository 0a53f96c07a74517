/-!
# Bindings

A finite map from keys to values, both text, held in the order of the keys. It
serves as the arguments of a compilation and as the extra fields of a tag.

* `sorted_place`: a binding is put in where the keys stay in order.
* `get?_insert`: a binding is found under its key and disturbs no other.
* `get?_erase`: an erased key is gone and no other is.
-/

namespace Bracketry

/-- Keys in strictly increasing order, each with its value. -/
structure Bindings where
  entries : List (String × String)
  sorted : entries.Pairwise fun a b => a.1 < b.1
  deriving DecidableEq, Repr

namespace Bindings

def empty : Bindings := ⟨[], .nil⟩

instance : Inhabited Bindings := ⟨empty⟩

/-- Puts a binding in its place, over one of the same key. -/
def place (key value : String) : List (String × String) → List (String × String)
  | [] => [(key, value)]
  | (k, v) :: rest =>
    if key = k then (key, value) :: rest
    else if key < k then (key, value) :: (k, v) :: rest
    else (k, v) :: place key value rest

theorem mem_place {key value : String} {e : String × String} {l : List (String × String)}
    (h : e ∈ place key value l) : e = (key, value) ∨ e ∈ l := by
  induction l with
  | nil => exact .inl (List.mem_singleton.1 h)
  | cons e' rest ih =>
    unfold place at h
    split at h
    · exact (List.mem_cons.1 h).imp_right (List.mem_cons_of_mem e')
    · split at h
      · exact List.mem_cons.1 h
      · rcases List.mem_cons.1 h with rfl | h
        · exact .inr List.mem_cons_self
        · exact (ih h).imp_right (List.mem_cons_of_mem e')

/-- Of two keys that differ, one comes first. -/
theorem lt_of_ne_of_not_lt {a b : String} (hne : a ≠ b) (h : ¬a < b) : b < a :=
  Classical.byContradiction fun hnot =>
    hne (String.le_antisymm (String.not_lt.1 hnot) (String.not_lt.1 h))

/-- **Keys stay in order** where a binding is put in its place. -/
theorem sorted_place (key value : String) {l : List (String × String)}
    (h : l.Pairwise fun a b => a.1 < b.1) : (place key value l).Pairwise fun a b => a.1 < b.1 := by
  induction l with
  | nil => exact List.pairwise_singleton _ _
  | cons e rest ih =>
    obtain ⟨hfirst, hrest⟩ := List.pairwise_cons.1 h
    unfold place
    split
    · next heq =>
      subst heq
      exact List.pairwise_cons.2 ⟨hfirst, hrest⟩
    · next hne =>
      split
      · next hlt =>
        refine List.pairwise_cons.2 ⟨?_, h⟩
        exact List.forall_mem_cons.2 ⟨hlt, fun e' he' => String.lt_trans hlt (hfirst e' he')⟩
      · next hnot =>
        refine List.pairwise_cons.2 ⟨fun e' he' => ?_, ih hrest⟩
        rcases mem_place he' with rfl | he'
        · exact lt_of_ne_of_not_lt hne hnot
        · exact hfirst e' he'

def insert (b : Bindings) (key value : String) : Bindings :=
  ⟨place key value b.entries, sorted_place key value b.sorted⟩

def erase (b : Bindings) (key : String) : Bindings :=
  ⟨b.entries.filter fun e => e.1 ≠ key, b.sorted.filter _⟩

def get? (b : Bindings) (key : String) : Option String := b.entries.lookup key

def contains (b : Bindings) (key : String) : Bool := (b.get? key).isSome

def size (b : Bindings) : Nat := b.entries.length

def isEmpty (b : Bindings) : Bool := b.entries.isEmpty

/-- Adds pairs in order; a later pair replaces an earlier one of its key. -/
def insertAll (b : Bindings) (pairs : List (String × String)) : Bindings :=
  pairs.foldl (fun b p => b.insert p.1 p.2) b

def ofList (pairs : List (String × String)) : Bindings := empty.insertAll pairs

def eraseAll (b : Bindings) (keys : List String) : Bindings := keys.foldl erase b

/-- The bindings of the listed keys; a key that is not bound is passed over. -/
def select (b : Bindings) (keys : List String) : Bindings :=
  ofList (keys.filterMap fun key => (b.get? key).map fun value => (key, value))

theorem lookup_cons_eq (k key value : String) (l : List (String × String)) :
    ((key, value) :: l).lookup k = if k = key then some value else l.lookup k := by
  rw [List.lookup_cons]
  by_cases h : k = key
  · rw [if_pos h, beq_iff_eq.2 h]
  · rw [if_neg h, beq_eq_false_iff_ne.2 h]

theorem lookup_place (key value k : String) (l : List (String × String)) :
    (place key value l).lookup k = if k = key then some value else l.lookup k := by
  induction l with
  | nil => rw [place, lookup_cons_eq]
  | cons e rest ih =>
    obtain ⟨k', v'⟩ := e
    unfold place
    split
    · next h => subst h; simp only [lookup_cons_eq]; split <;> rfl
    · next h =>
      split
      · rw [lookup_cons_eq]
      · simp only [lookup_cons_eq, ih]
        by_cases hk : k = k'
        · subst hk; simp [Ne.symm h]
        · simp [hk]

theorem lookup_filter_ne (key k : String) (l : List (String × String)) :
    (l.filter fun e => e.1 ≠ key).lookup k = if k = key then none else l.lookup k := by
  induction l with
  | nil => simp
  | cons e rest ih =>
    obtain ⟨k', v'⟩ := e
    by_cases h : k' = key
    · rw [List.filter_cons_of_neg (by simp [h]), ih, lookup_cons_eq]
      split <;> simp_all
    · rw [List.filter_cons_of_pos (by simp [h]), lookup_cons_eq, lookup_cons_eq, ih]
      by_cases hk : k = k'
      · subst hk; simp [h]
      · simp [hk]

theorem get?_insert (b : Bindings) (key value k : String) :
    (b.insert key value).get? k = if k = key then some value else b.get? k :=
  lookup_place key value k b.entries

theorem get?_erase (b : Bindings) (key k : String) :
    (b.erase key).get? k = if k = key then none else b.get? k :=
  lookup_filter_ne key k b.entries

end Bindings

end Bracketry
