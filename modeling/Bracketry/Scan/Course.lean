import Bracketry.Token

/-!
# The course of a token

What happens to one token between its admission and its end, as the scan found
it. Running a course takes a fresh token through these calls of its state
machine.

* `Course.run`: the token at the end of a course.
* `Course.exists_run`: no call on the way fails.
-/

namespace Bracketry

/-- A child as a group takes it in: its number, what it covers, and whether it
is a literal without text. -/
structure Child where
  id : Nat
  span : Span
  emptyLiteral : Bool
  deriving DecidableEq, Repr

inductive Course (K : Type)
  /-- A tag is opened, read over `content` bytes and closed. If it delegated its
  content, `level` says to what. -/
  | tag (kind : K) (rule : Nat) (parent : Option Nat) (stream opening : Span) (content : Nat)
      (closing : Span) (level : Option Level) (extra : Option Bindings)
  /-- A literal is opened and read over `content` bytes. It stops at a boundary,
  or it swallows a close delimiter of the enclosing tag. -/
  | literal (kind : K) (parent : Option Nat) (stream : Span) (content : Nat)
      (swallowed : Option Span)
  /-- The plain text before the first tag on a delegated level is known in full
  when its token is admitted. -/
  | seed (kind : K) (parent : Option Nat) (stream : Span)
  /-- A group takes in its children in order. -/
  | group (kind : K) (parent : Option Nat) (stream : Span) (children : List Child)

namespace Course

variable {K : Type} [DecidableEq K] [Taxonomy K]

/-- The token at the end of a course. -/
def run : Course K → Except Error (Token K)
  | .tag kind rule parent stream opening content closing level extra => do
    let t ← (Token.tag kind rule stream opening parent).begin
    let t := t.moveTo content
    let t := match level with
      | some level => t.delegate level
      | none => t
    let t ← t.close (some closing) level.isSome
    .ok (t.annotate extra)
  | .literal kind parent stream content swallowed => do
    let t ← (Token.literal kind stream parent).begin
    let t := t.moveTo content
    match swallowed with
    | some closing => t.yield closing
    | none => t.close none true
  | .seed kind parent stream => (Token.literal kind stream parent).absorb
  | .group kind parent stream children =>
    .ok (children.foldl (fun t c => t.attach c.id c.span c.emptyLiteral)
      (Token.group kind stream parent))

/-- A course calls its token by the book. -/
theorem exists_run (c : Course K) : ∃ t, c.run = .ok t := by
  cases c with
  | tag kind rule parent stream opening content closing level extra =>
    cases level <;> exact ⟨_, rfl⟩
  | literal kind parent stream content swallowed => cases swallowed <;> exact ⟨_, rfl⟩
  | seed kind parent stream => exact ⟨_, rfl⟩
  | group kind parent stream children => exact ⟨_, rfl⟩

end Course

end Bracketry
