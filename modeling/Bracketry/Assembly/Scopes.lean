import Bracketry.Assembly.Basic

/-!
# Open scopes

While nodes emit their output, each open node holds a scope for that of its
children. A scope is attached to the one around it when it is left. Nothing is
added to a scope while one inside it is open, so the order stays that of the
document.

* `finish_leave`: a scope left early or at the end is attached in the same place.
-/

namespace Bracketry

/-- The outermost assembly and the scopes open inside it, innermost first. -/
structure Scopes (α : Type) where
  root : Assembly α
  opened : List (Assembly α)

namespace Scopes

variable {α : Type}

/-- No scope is open. -/
def start (root : Assembly α) : Scopes α := ⟨root, []⟩

/-- The number of open scopes. -/
def depth (s : Scopes α) : Nat := s.opened.length

/-- The innermost scope. -/
def current (s : Scopes α) : Assembly α := s.opened.headD s.root

/-- Replaces the innermost scope. -/
def setCurrent (s : Scopes α) (a : Assembly α) : Scopes α :=
  match s.opened with
  | [] => { s with root := a }
  | _ :: outer => { s with opened := a :: outer }

/-- Opens an empty scope. -/
def enter (s : Scopes α) : Scopes α := { s with opened := [] :: s.opened }

/-- Attaches the innermost scope to the one around it. With no scope open,
nothing happens. -/
def leave (s : Scopes α) : Scopes α :=
  match s.opened with
  | [] => s
  | scope :: outer =>
    let around : Scopes α := { s with opened := outer }
    around.setCurrent (around.current.pushNested scope)

/-- Attaches a scope to the scopes around it, from the inside out, and the last
of them to `root`. -/
def attachTo (root inner : Assembly α) : List (Assembly α) → Assembly α
  | [] => root.pushNested inner
  | around :: outer => attachTo root (around.pushNested inner) outer

/-- Leaves every open scope: the outermost assembly. -/
def finish (s : Scopes α) : Assembly α :=
  match s.opened with
  | [] => s.root
  | scope :: outer => attachTo s.root scope outer

/-- Leaving a scope makes no difference to the end. -/
theorem finish_leave (s : Scopes α) : s.leave.finish = s.finish := by
  obtain ⟨root, opened⟩ := s
  match opened with
  | [] => rfl
  | [_] => rfl
  | _ :: _ :: _ => rfl

end Scopes

end Bracketry
