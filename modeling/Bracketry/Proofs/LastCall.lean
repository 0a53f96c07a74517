import Mathlib
import Bracketry.InPlace.Constraints
import Bracketry.Proofs.Mandatory

/-!
# The last call on a kind decides

A set of constraints keeps two collections, the kinds marked as allowed and the mandatory ones. A
call writes into one of them or into both, and each of the four kinds of call into others. Written
one after the other, the calls on a kind decide about that kind alone, each time the last one that
wrote there.

* `Constraints.Call.after_eq`: what a call in place leaves, whether it fails or not.
* `Constraints.allowed_after`, `Constraints.mandatory_after`: what a call writes.
* `Constraints.after_comm`: calls on different kinds may be swapped.
* `Constraints.last_call_decides`: **a kind is allowed, or mandatory, as the last call on it that
  says so has it,** and what is mandatory is allowed.
-/

namespace Bracketry.Constraints

open Calls (after replay replay_concat)

variable {K : Type} [DecidableEq K]

namespace Change

/-- The mark that a change puts on its kind, if it puts one. -/
def mark? : Change → Option Bool
  | .allow => some true
  | .disallow => some false
  | .require => some true
  | .relax => none

/-- Whether a change makes its kind mandatory, if it says so. -/
def demand? : Change → Option Bool
  | .allow => none
  | .disallow => some false
  | .require => some true
  | .relax => some false

theorem allowed_made (change : Change) (c : Constraints K) (kind k : K) :
    (change.made c kind).allowed k =
      if k = kind then change.mark?.getD (c.allowed k) else c.allowed k := by
  cases change <;> simp [made, mark?, Constraints.allow, Constraints.disallow, Constraints.require,
    Constraints.relax, mark]

theorem mandatory_made (change : Change) (c : Constraints K) (kind k : K) :
    (change.made c kind).mandatory k =
      if k = kind then change.demand?.getD (c.mandatory k) else c.mandatory k := by
  cases change <;> simp [made, demand?, Constraints.allow, Constraints.disallow,
    Constraints.require, Constraints.relax, mark]

end Change

variable [Taxonomy K]

namespace Call

/-- The kind that a call is on, if there is one of its name. -/
def kind? (c : Call K) : Option K :=
  match c.target with
  | .inl kind => some kind
  | .inr name => Taxonomy.ofName? name

/-- A call on a kind changes the set for that kind. -/
theorem made_of_kind? {call : Call K} {kind : K} (h : call.kind? = some kind) (c : Constraints K) :
    call.made c = .ok (call.change.made c kind) := by
  obtain ⟨change, target⟩ := call
  cases target with
  | inl k =>
    obtain rfl : k = kind := Option.some.inj h
    rfl
  | inr name =>
    have hname : Taxonomy.ofName? name = some kind := h
    have hresolve : (Taxonomy.resolve name : Except Error K) = .ok kind := by
      unfold Taxonomy.resolve
      rw [hname]
    show c.byName change.made name = _
    rw [byName_eq, hresolve]
    rfl

/-- A call with a name that no kind has is refused. -/
theorem made_of_unknown {call : Call K} (h : call.kind? = none) (c : Constraints K) :
    ∃ name, call.target = .inr name ∧ call.made c = .error (.unknownKind name) := by
  obtain ⟨change, target⟩ := call
  cases target with
  | inl k => cases h
  | inr name =>
    have hname : (Taxonomy.ofName? name : Option K) = none := h
    have hresolve : (Taxonomy.resolve name : Except Error K) = .error (.unknownKind name) := by
      unfold Taxonomy.resolve
      rw [hname]
    refine ⟨name, rfl, ?_⟩
    show c.byName change.made name = _
    rw [byName_eq, hresolve]
    rfl

theorem after_eq (call : Call K) (c : Constraints K) :
    after call c = match call.kind? with
      | some kind => call.change.made c kind
      | none => c := by
  cases hk : call.kind? with
  | some kind => exact Calls.after_of_ok (made_of_kind? hk c)
  | none =>
    obtain ⟨name, -, hmade⟩ := made_of_unknown hk c
    exact Calls.after_of_error hmade

end Call

/-! ## What a call writes -/

theorem allowed_after (call : Call K) (c : Constraints K) (k : K) :
    (Calls.after call c).allowed k =
      if call.kind? = some k then call.change.mark?.getD (c.allowed k) else c.allowed k := by
  rw [Call.after_eq]
  cases hk : call.kind? with
  | none => rfl
  | some kind =>
    show (call.change.made c kind).allowed k = _
    rw [Change.allowed_made]
    by_cases h : k = kind
    · subst h
      rw [if_pos rfl, if_pos rfl]
    · have hne : some kind ≠ some k := fun heq => h (Option.some.inj heq).symm
      rw [if_neg h, if_neg hne]

theorem mandatory_after (call : Call K) (c : Constraints K) (k : K) :
    (Calls.after call c).mandatory k =
      if call.kind? = some k then call.change.demand?.getD (c.mandatory k) else c.mandatory k := by
  rw [Call.after_eq]
  cases hk : call.kind? with
  | none => rfl
  | some kind =>
    show (call.change.made c kind).mandatory k = _
    rw [Change.mandatory_made]
    by_cases h : k = kind
    · subst h
      rw [if_pos rfl, if_pos rfl]
    · have hne : some kind ≠ some k := fun heq => h (Option.some.inj heq).symm
      rw [if_neg h, if_neg hne]

omit [DecidableEq K] [Taxonomy K] in
theorem eq_of_collections {c d : Constraints K} (hallowed : c.allowed = d.allowed)
    (hmandatory : c.mandatory = d.mandatory) : c = d := by
  obtain ⟨allowed, mandatory⟩ := c
  obtain ⟨allowed', mandatory'⟩ := d
  obtain rfl : allowed = allowed' := hallowed
  obtain rfl : mandatory = mandatory' := hmandatory
  rfl

/-- **Calls on different kinds may be swapped,** those with an unknown name included. -/
theorem after_comm {a b : Call K} (h : ∀ kind, a.kind? = some kind → b.kind? ≠ some kind)
    (c : Constraints K) : after b (after a c) = after a (after b c) := by
  have hallowed : (after b (after a c)).allowed = (after a (after b c)).allowed := by
    funext k
    simp only [allowed_after]
    by_cases ha : a.kind? = some k
    · rw [if_neg (h k ha), if_pos ha, if_pos ha, if_neg (h k ha)]
    · rw [if_neg ha, if_neg ha]
  have hmandatory : (after b (after a c)).mandatory = (after a (after b c)).mandatory := by
    funext k
    simp only [mandatory_after]
    by_cases ha : a.kind? = some k
    · rw [if_neg (h k ha), if_pos ha, if_pos ha, if_neg (h k ha)]
    · rw [if_neg ha, if_neg ha]
  exact eq_of_collections hallowed hmandatory

/-! ## Calls in a row -/

/-- The last of the calls on a kind that make one of some changes. -/
def lastOn (calls : List (Call K)) (kind : K) (changes : List Change) : Option Change :=
  ((calls.filter fun call => call.kind? = some kind && changes.contains call.change).getLast?).map
    Call.change

theorem lastOn_concat (calls : List (Call K)) (call : Call K) (kind : K) (changes : List Change) :
    lastOn (calls ++ [call]) kind changes =
      if call.kind? = some kind ∧ call.change ∈ changes then some call.change
      else lastOn calls kind changes := by
  unfold lastOn
  rw [List.filter_append]
  by_cases h : call.kind? = some kind ∧ call.change ∈ changes
  · simp [h]
  · have hskip : (call.kind? = some kind && changes.contains call.change) = false := by
      simpa using h
    rw [if_neg h, List.filter_singleton, hskip]
    simp

/-- **What a set of constraints is after some calls:** the last call on a kind that marks it
decides whether it is allowed, and the last one that says whether it is mandatory decides that. -/
structure Decided (calls : List (Call K)) (c : Constraints K) : Prop where
  allowed : ∀ kind, c.allowed kind = true ↔
    match lastOn calls kind [.allow, .disallow, .require] with
    | some change => change ≠ .disallow
    | none => Taxonomy.base = some kind
  mandatory : ∀ kind, c.mandatory kind = true ↔
    lastOn calls kind [.require, .relax, .disallow] = some .require

theorem decided_fresh : Decided ([] : List (Call K)) .fresh := by
  constructor
  · intro kind
    show (Taxonomy.base == some kind) = true ↔ Taxonomy.base = some kind
    exact beq_iff_eq
  · intro kind
    show false = true ↔ none = some Change.require
    simp

/-- **One more call decides about its kind,** and leaves the other kinds as they were. -/
theorem Decided.after {calls : List (Call K)} {c : Constraints K} (h : Decided calls c)
    (call : Call K) : Decided (calls ++ [call]) (Calls.after call c) := by
  constructor
  · intro kind
    have hbefore := h.allowed kind
    rw [allowed_after, lastOn_concat]
    by_cases hk : call.kind? = some kind
    · cases hc : call.change <;> simp [hk, Change.mark?, hbefore]
    · simp [hk, hbefore]
  · intro kind
    have hbefore := h.mandatory kind
    rw [mandatory_after, lastOn_concat]
    by_cases hk : call.kind? = some kind
    · cases hc : call.change <;> simp [hk, Change.demand?, hbefore]
    · simp [hk, hbefore]

theorem decided_replay (calls : List (Call K)) : Decided calls (replay fresh calls) := by
  -- from the last call on, which the calls before it cannot undo
  induction calls using List.reverseRecOn with
  | nil => exact decided_fresh
  | append_singleton calls call ih =>
    rw [replay_concat]
    exact ih.after call

/-! ## What is mandatory is allowed -/

/-- Every mandatory kind is marked as allowed. -/
def Coherent (c : Constraints K) : Prop := ∀ kind, c.mandatory kind = true → c.allowed kind = true

theorem Coherent.after {c : Constraints K} (h : c.Coherent) (call : Call K) :
    (Calls.after call c).Coherent := by
  intro kind
  have hbefore := h kind
  rw [allowed_after, mandatory_after]
  by_cases hk : call.kind? = some kind
  · cases hc : call.change <;> simp [hk, Change.mark?, Change.demand?]
  · simpa [hk] using hbefore

theorem coherent_replay (calls : List (Call K)) :
    (replay fresh calls : Constraints K).Coherent := by
  induction calls using List.reverseRecOn with
  | nil =>
    intro kind hkind
    cases hkind
  | append_singleton calls call ih =>
    rw [replay_concat]
    exact ih.after call

/-- A kind marked as allowed may stand among the descendants. -/
theorem allows_of_allowed {c : Constraints K} {kind : K} (h : c.allowed kind = true) :
    c.allows kind = true := by
  unfold allows allowedKinds
  rw [List.any_eq_true]
  exact ⟨kind, List.mem_filter.2 ⟨Taxonomy.mem_ascending kind, h⟩, Taxonomy.isA_refl kind⟩

/-! ## The last call -/

/-- **A set of constraints after some calls:** what it says of each kind, and what further calls
do. -/
structure LastCalls (calls : List (Call K)) (c : Constraints K) : Prop extends
    Decided calls c where
  /-- What is mandatory is allowed. -/
  coherent : ∀ kind, c.mandatory kind = true → c.allowed kind = true ∧ c.allows kind = true
  /-- A call on a kind succeeds. -/
  accepts : ∀ (call : Call K) (kind : K), call.kind? = some kind →
    call.write c = .ok () (call.change.made c kind)
  /-- A call with a name that no kind has fails and changes nothing. -/
  refuses : ∀ call : Call K, call.kind? = none →
    ∃ name, call.target = .inr name ∧ call.write c = .error (.unknownKind name) c
  /-- Calls on different kinds may be swapped. -/
  commutes : ∀ a b : Call K, (∀ kind, a.kind? = some kind → b.kind? ≠ some kind) →
    replay c [a, b] = replay c [b, a]

/-- **The last call on a kind decides about it.** After any calls on a fresh set, by kind or by
name and with unknown names among them, a kind is allowed if the last call that marks it does not
disallow it, and the base kind if no call marks it. It is mandatory if the last call that says so
requires it. What is mandatory is allowed, and calls on different kinds may be swapped. -/
theorem last_call_decides (calls : List (Call K)) : LastCalls calls (replay fresh calls) := by
  have hdecided := decided_replay calls
  have hcoherent := coherent_replay calls
  refine ⟨hdecided, ?_, ?_, ?_, ?_⟩
  · intro kind hkind
    have hallowed := hcoherent kind hkind
    exact ⟨hallowed, allows_of_allowed hallowed⟩
  · intro call kind hkind
    rw [Call.write_eq, Call.made_of_kind? hkind]
    rfl
  · intro call hkind
    obtain ⟨name, htarget, hmade⟩ := Call.made_of_unknown hkind (replay fresh calls)
    refine ⟨name, htarget, ?_⟩
    rw [Call.write_eq, hmade]
    rfl
  · intro a b hapart
    exact after_comm hapart _

/-- A requirement is dropped with the mark, and an unknown name changes nothing. -/
example :
    let calls : List (Call Template.Kind) :=
      [⟨.require, .inl .var⟩, ⟨.disallow, .inr "Var"⟩, ⟨.require, .inr "Nothing"⟩,
        ⟨.require, .inl .text⟩, ⟨.relax, .inl .text⟩]
    let c : Constraints Template.Kind := replay fresh calls
    c.allowedKinds = [.node, .text] ∧ c.mandatoryKinds = [] := by
  cbv

end Bracketry.Constraints
