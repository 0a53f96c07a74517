import Mathlib
import Bracketry.Proofs.Emission
import Bracketry.Proofs.Traversal

/-!
# Scopes as brackets

Entering and leaving scopes are brackets around what is added in between. They need not match: a
scope may stay open to the end, and a scope may be left when none is open. Scopes are attached
when they are left, so a scope gets its place only after all that is inside it, and yet it stands
where it was entered.

* `Scopes.Denotes`: what any row of calls stands for, read as brackets.
* `Scopes.exists_denotes`: every row of calls stands for something.
* `Scopes.Balanced.replay`, `Scopes.Unfinished.finish_eq`: what the calls do with a scope that is
  open already.
* `Scopes.finish_denoted`: **after any calls the outermost assembly has gained what the calls
  stand for,** and so all items that were added, each once and in order.
-/

namespace Bracketry.Scopes

open Assembly (flatten_nil flatten_append flatten_item_cons flatten_nested_cons)

variable {α : Type}

/-- The calls while scopes are open. -/
inductive Call (α : Type)
  | append (item : α)
  | enter
  | leave

/-- The scopes after a call. -/
def Call.after : Call α → Scopes α → Scopes α
  | .append item, s => s.setCurrent (s.current.push item)
  | .enter, s => s.enter
  | .leave, s => s.leave

/-- The scopes after some calls in a row. -/
def replay (s : Scopes α) (calls : List (Call α)) : Scopes α :=
  calls.foldl (fun s call => call.after s) s

/-- The items that some calls add, in order. -/
def appended (calls : List (Call α)) : List α :=
  calls.filterMap fun
    | .append item => some item
    | _ => none

/-! ## Brackets -/

/-- Calls that leave every scope that they enter and no other, and the entries that they stand
for. -/
inductive Balanced : List (Call α) → Assembly α → Prop
  | nil : Balanced [] []
  | append {calls : List (Call α)} {entries : Assembly α} (item : α) :
      Balanced calls entries → Balanced (.append item :: calls) (.item item :: entries)
  | scope {inner calls : List (Call α)} {within entries : Assembly α} :
      Balanced inner within → Balanced calls entries →
      Balanced (.enter :: (inner ++ .leave :: calls)) (.nested within :: entries)

/-- Calls that leave no scope but those that they enter. A scope that is not left reaches to the
end of the calls. -/
inductive Unfinished : List (Call α) → Assembly α → Prop
  | balanced {calls : List (Call α)} {entries : Assembly α} :
      Balanced calls entries → Unfinished calls entries
  | scope {before inner : List (Call α)} {entries within : Assembly α} :
      Balanced before entries → Unfinished inner within →
      Unfinished (before ++ .enter :: inner) (entries ++ [.nested within])

/-- Any calls, and the entries that they stand for. Leaving a scope when none is open adds
nothing. -/
inductive Denotes : List (Call α) → Assembly α → Prop
  | unfinished {calls : List (Call α)} {entries : Assembly α} :
      Unfinished calls entries → Denotes calls entries
  | leave {before calls : List (Call α)} {entries more : Assembly α} :
      Balanced before entries → Denotes calls more →
      Denotes (before ++ .leave :: calls) (entries ++ more)

theorem Unfinished.append {calls : List (Call α)} {entries : Assembly α} (item : α)
    (h : Unfinished calls entries) : Unfinished (.append item :: calls) (.item item :: entries) := by
  cases h with
  | balanced hb => exact .balanced (hb.append item)
  | scope hb hinner => exact .scope (hb.append item) hinner

theorem Unfinished.after_scope {inner calls : List (Call α)} {within entries : Assembly α}
    (hinner : Balanced inner within) (h : Unfinished calls entries) :
    Unfinished (.enter :: (inner ++ .leave :: calls)) (.nested within :: entries) := by
  cases h with
  | balanced hb => exact .balanced (hinner.scope hb)
  | @scope before open_ entries within' hb hopen =>
    have hrow : Call.enter :: (inner ++ .leave :: (before ++ .enter :: open_)) =
        (.enter :: (inner ++ .leave :: before)) ++ .enter :: open_ := by
      simp
    rw [hrow]
    exact .scope (hinner.scope hb) hopen

/-- **Calls leave no scope but their own, or there is a first one that they should not.** -/
theorem unfinished_or_leaves (calls : List (Call α)) :
    (∃ entries, Unfinished calls entries) ∨
      ∃ before entries after, calls = before ++ .leave :: after ∧ Balanced before entries := by
  -- what follows a scope is shorter than the calls, but it is no tail that the recursion meets
  induction hn : calls.length using Nat.strong_induction_on generalizing calls with
  | _ n ih =>
    cases calls with
    | nil => exact .inl ⟨[], .balanced .nil⟩
    | cons call rest =>
      have hrest : rest.length < n := by
        rw [← hn, List.length_cons]
        omega
      cases call with
      | append item =>
        rcases ih _ hrest rest rfl with ⟨entries, h⟩ | ⟨before, entries, after, rfl, hb⟩
        · exact .inl ⟨_, h.append item⟩
        · exact .inr ⟨.append item :: before, _, after, rfl, hb.append item⟩
      | leave => exact .inr ⟨[], [], rest, rfl, .nil⟩
      | enter =>
        rcases ih _ hrest rest rfl with ⟨entries, h⟩ | ⟨inner, within, after, rfl, hinner⟩
        · exact .inl ⟨_, .scope .nil h⟩
        · -- the scope is left here, and the calls go on around it
          have hafter : after.length < n := by
            rw [List.length_append, List.length_cons] at hrest
            omega
          rcases ih _ hafter after rfl with ⟨entries, h⟩ | ⟨before, entries, later, rfl, hb⟩
          · exact .inl ⟨_, h.after_scope hinner⟩
          · refine .inr ⟨.enter :: (inner ++ .leave :: before), _, later, ?_, hinner.scope hb⟩
            simp

/-- **Every row of calls stands for some entries.** -/
theorem exists_denotes (calls : List (Call α)) : ∃ entries, Denotes calls entries := by
  induction hn : calls.length using Nat.strong_induction_on generalizing calls with
  | _ n ih =>
    rcases unfinished_or_leaves calls with ⟨entries, h⟩ | ⟨before, entries, after, rfl, hb⟩
    · exact ⟨entries, .unfinished h⟩
    · have hafter : after.length < n := by
        rw [← hn, List.length_append, List.length_cons]
        omega
      obtain ⟨more, hmore⟩ := ih _ hafter after rfl
      exact ⟨entries ++ more, .leave hb hmore⟩

/-! ## What the calls do -/

theorem replay_append (s : Scopes α) (calls later : List (Call α)) :
    s.replay (calls ++ later) = (s.replay calls).replay later :=
  List.foldl_append

/-- **Balanced calls add their entries to the innermost scope** and open no other. -/
theorem Balanced.replay {calls : List (Call α)} {entries : Assembly α} (h : Balanced calls entries)
    (s : Scopes α) : s.replay calls = s.setCurrent (s.current ++ entries) := by
  induction h generalizing s with
  | nil =>
    rw [List.append_nil, setCurrent_current]
    rfl
  | append item _ ih =>
    show (s.setCurrent (s.current.push item)).replay _ = _
    rw [ih, current_setCurrent, setCurrent_setCurrent, Assembly.push, List.append_assoc]
    rfl
  | @scope inner calls within entries _ _ ihInner ih =>
    show s.enter.replay (inner ++ .leave :: calls) = _
    rw [replay_append, ihInner, current_enter, List.nil_append]
    show ((s.enter.setCurrent within).leave).replay calls = _
    rw [leave_enter, ih, current_setCurrent, setCurrent_setCurrent, Assembly.pushNested,
      List.append_assoc]
    rfl

/-- A scope that stays open is attached at the end, where it was entered. -/
theorem Unfinished.finish_eq {calls : List (Call α)} {entries : Assembly α}
    (h : Unfinished calls entries) (s : Scopes α) :
    (s.replay calls).finish = (s.setCurrent (s.current ++ entries)).finish := by
  induction h generalizing s with
  | balanced hb => rw [hb.replay]
  | @scope before inner entries within hb _ ih =>
    rw [replay_append, hb.replay]
    show ((s.setCurrent (s.current ++ entries)).enter.replay inner).finish = _
    rw [ih, current_enter, List.nil_append, ← finish_leave, leave_enter, current_setCurrent,
      setCurrent_setCurrent, Assembly.pushNested, List.append_assoc]

/-- The outermost assembly gains what the calls stand for. -/
theorem Denotes.finish_eq {calls : List (Call α)} {entries : Assembly α} (h : Denotes calls entries)
    (root : Assembly α) : ((start root).replay calls).finish = root ++ entries := by
  induction h generalizing root with
  | unfinished hu =>
    rw [hu.finish_eq]
    rfl
  | @leave before calls entries more hb _ ih =>
    rw [replay_append, hb.replay]
    -- nothing is open, so leaving does nothing
    show ((start (root ++ entries)).replay calls).finish = _
    rw [ih, List.append_assoc]

/-- **Calls stand for one row of entries only.** -/
theorem Denotes.unique {calls : List (Call α)} {entries entries' : Assembly α}
    (h : Denotes calls entries) (h' : Denotes calls entries') : entries = entries' := by
  have heq := (h.finish_eq []).symm.trans (h'.finish_eq [])
  simpa using heq

/-! ## The items -/

theorem appended_append (calls later : List (Call α)) :
    appended (calls ++ later) = appended calls ++ appended later :=
  List.filterMap_append

theorem appended_enter_cons (calls : List (Call α)) : appended (.enter :: calls) = appended calls :=
  rfl

theorem appended_leave_cons (calls : List (Call α)) : appended (.leave :: calls) = appended calls :=
  rfl

theorem Balanced.flatten_eq {calls : List (Call α)} {entries : Assembly α}
    (h : Balanced calls entries) : entries.flatten = appended calls := by
  induction h with
  | nil => exact flatten_nil
  | append item _ ih =>
    rw [flatten_item_cons, ih]
    rfl
  | scope _ _ ihInner ih =>
    rw [flatten_nested_cons, ihInner, ih, appended_enter_cons, appended_append,
      appended_leave_cons]

theorem Unfinished.flatten_eq {calls : List (Call α)} {entries : Assembly α}
    (h : Unfinished calls entries) : entries.flatten = appended calls := by
  induction h with
  | balanced hb => exact hb.flatten_eq
  | scope hb _ ih =>
    rw [flatten_append, flatten_nested_cons, flatten_nil, List.append_nil, hb.flatten_eq, ih,
      appended_append, appended_enter_cons]

/-- **What calls stand for holds the items that they add,** each once and in order. -/
theorem Denotes.flatten_eq {calls : List (Call α)} {entries : Assembly α}
    (h : Denotes calls entries) : entries.flatten = appended calls := by
  induction h with
  | unfinished hu => exact hu.flatten_eq
  | leave hb _ ih => rw [flatten_append, hb.flatten_eq, ih, appended_append, appended_leave_cons]

/-! ## The end -/

theorem depth_leave (s : Scopes α) : s.leave.depth = s.depth - 1 := by
  obtain ⟨root, opened⟩ := s
  match opened with
  | [] => rfl
  | [_] => rfl
  | _ :: _ :: _ => rfl

/-- Leaving the open scopes one after another is finishing them. -/
theorem root_leaves (s : Scopes α) : (leave^[s.depth] s).root = s.finish := by
  induction hn : s.depth generalizing s with
  | zero =>
    obtain ⟨root, opened⟩ := s
    obtain rfl := List.length_eq_zero_iff.1 hn
    rfl
  | succ n ih =>
    have hleave : s.leave.depth = n := by
      rw [depth_leave, hn, Nat.add_sub_cancel]
    rw [Function.iterate_succ_apply, ih s.leave hleave, finish_leave]

/-- **After any calls the outermost assembly has gained what the calls stand for.** That is one row
of entries, whatever scopes the calls left open or left once too often, and its items are those
that were added, each once and in order. The end comes by leaving what is open. -/
theorem finish_denoted (root : Assembly α) (calls : List (Call α)) :
    (leave^[((start root).replay calls).depth] ((start root).replay calls)).root =
        ((start root).replay calls).finish ∧
      (∃ entries, (∀ es, Denotes calls es ↔ es = entries) ∧
        ((start root).replay calls).finish = root ++ entries) ∧
      ((start root).replay calls).finish.flatten = root.flatten ++ appended calls := by
  obtain ⟨entries, h⟩ := exists_denotes calls
  have hfinish := h.finish_eq root
  refine ⟨root_leaves _, ⟨entries, fun es => ⟨fun hes => hes.unique h, ?_⟩, hfinish⟩, ?_⟩
  · rintro rfl
    exact h
  · rw [hfinish, flatten_append, h.flatten_eq]

/-- A leave too many, a scope that is left and one that is not. -/
example :
    ((start [.item 0]).replay
      [.leave, .append 1, .enter, .append 2, .leave, .enter, .append 3]).finish =
        [.item 0, .item 1, .nested [.item 2], .nested [.item 3]] :=
  rfl

end Bracketry.Scopes
