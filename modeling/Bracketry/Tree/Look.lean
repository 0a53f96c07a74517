/-!
# Looking at a tree

A node computes its children when they are first asked for. Code that looks at a
tree therefore yields, next to its value, the nodes whose children it asked for,
in order. The value does not depend on what was asked before.
-/

namespace Bracketry

/-- A value read off a tree and the numbers of the nodes whose children were
asked for on the way. -/
structure Look (α : Type) where
  value : α
  asked : List Nat

namespace Look

variable {α β : Type}

/-- A value that took no look at children. -/
def pure (a : α) : Look α := ⟨a, []⟩

/-- One look after another. -/
def bind (l : Look α) (f : α → Look β) : Look β := ⟨(f l.value).value, l.asked ++ (f l.value).asked⟩

/-- Asks for the children of a node. -/
def ask (id : Nat) : Look Unit := ⟨(), [id]⟩

instance : Monad Look where
  pure := pure
  bind := bind

@[simp] theorem value_pure (a : α) : (Pure.pure a : Look α).value = a := rfl

@[simp] theorem value_bind (l : Look α) (f : α → Look β) : (l >>= f).value = (f l.value).value := rfl

@[simp] theorem asked_pure (a : α) : (Pure.pure a : Look α).asked = [] := rfl

@[simp] theorem asked_bind (l : Look α) (f : α → Look β) :
    (l >>= f).asked = l.asked ++ (f l.value).asked := rfl

end Look

end Bracketry
