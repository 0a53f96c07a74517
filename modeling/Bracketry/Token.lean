import Bracketry.Bindings
import Bracketry.Limits
import Bracketry.Span
import Bracketry.Taxonomy

/-!
# Tokens

A token is a one-shot state machine over spans of the source:

    unopened  --begin-->  opened  --close, yield, absorb-->  closed

Each call either moves the token forward or fails with the way it was misused
and changes nothing. A closed token covers its opening, its content and its
closing, in this order and without gaps.

* `begin`, `close`, `yield`, `absorb`: the calls that move a token forward.
* `attach`: a group grows by its children and is closed throughout.
-/

namespace Bracketry

inductive State
  | unopened
  | opened
  | closed
  deriving DecidableEq, Repr

/-- The three shapes of a token. -/
inductive Variant
  /-- Opened by the rule of the given number. -/
  | tag (rule : Nat)
  /-- Plain text. `swallowed` is the close delimiter of the enclosing tag, if
  the text ended by running into it. -/
  | literal (swallowed : Option Span)
  /-- The tokens of one level, in order. -/
  | group (children : List Nat)
  deriving DecidableEq, Repr

/-- What a nested level was assembled into. -/
structure Level where
  stream : Span
  /-- The token that stands for the level. -/
  token : Option Nat
  /-- The close delimiter of the enclosing tag, if the level ended there. -/
  swallowed : Option Span
  deriving DecidableEq, Repr

/-- A level over `stream` with nothing assembled yet. -/
def Level.fresh (stream : Span) : Level := ⟨stream, none, none⟩

/-- One scanned unit of the source. The spans are known from the moment that the
state machine reaches them. -/
structure Token (K : Type) where
  kind : K
  variant : Variant
  stream : Span
  opening : Option Span
  body : Option Span
  content : Option Span
  closing : Option Span
  rest : Option Span
  cursor : Nat
  state : State
  parent : Option Nat
  level : Option Level
  extra : Option Bindings
  deriving DecidableEq, Repr

namespace Token

variable {K : Type}

/-- An unopened token. -/
def unopened (kind : K) (variant : Variant) (stream opening : Span) (parent : Option Nat) :
    Token K where
  kind := kind
  variant := variant
  stream := stream
  opening := some opening
  body := none
  content := none
  closing := none
  rest := none
  cursor := 0
  state := .unopened
  parent := parent
  level := none
  extra := none

/-- A token opened by a rule, whose open delimiter is `opening`. -/
def tag (kind : K) (rule : Nat) (stream opening : Span) (parent : Option Nat) : Token K :=
  unopened kind (.tag rule) stream opening parent

/-- A token of plain text. Its open delimiter is empty. -/
def literal (kind : K) (stream : Span) (parent : Option Nat) : Token K :=
  unopened kind (.literal none) stream (.empty stream.start) parent

/-- A group without children. It is closed from the start. -/
def group (kind : K) (stream : Span) (parent : Option Nat) : Token K :=
  let at_ := Span.empty stream.start
  { unopened kind (.group []) stream at_ parent with
    body := some at_, content := some at_, closing := some at_, rest := some at_, state := .closed }

def isClosed (t : Token K) : Bool := t.state == .closed

def isLiteral (t : Token K) : Bool :=
  match t.variant with
  | .literal _ => true
  | _ => false

def isGroup (t : Token K) : Bool :=
  match t.variant with
  | .group _ => true
  | _ => false

/-- The children of a group; no other token has any. -/
def children (t : Token K) : List Nat :=
  match t.variant with
  | .group children => children
  | _ => []

/-- The close delimiter of the enclosing tag that a literal ran into. -/
def swallowed (t : Token K) : Option Span :=
  match t.variant with
  | .literal swallowed => swallowed
  | _ => none

/-- All that a closed token covers. -/
def span (t : Token K) : Option Span :=
  match t.opening, t.closing, t.state with
  | some o, some c, .closed => some ⟨o.start, c.stop⟩
  | _, _, _ => none

/-- How far a token moves its level on: what it covers and what it swallowed. -/
def length (t : Token K) : Nat :=
  (t.span.map Span.length).getD 0 + (t.swallowed.map Span.length).getD 0

/-- Moves the scan position within the body. Builds with assertions refuse to move it
back in a token that was begun; no scan does, so the call has no error. -/
def moveTo (t : Token K) (cursor : Nat) : Token K := { t with cursor := cursor }

/-- Records the level that the content was delegated to. -/
def delegate (t : Token K) (level : Level) : Token K := { t with level := some level }

/-- Records the extra fields of a tag. -/
def annotate (t : Token K) (extra : Option Bindings) : Token K := { t with extra := extra }

/-- Ends a token with the given spans. -/
def finish (t : Token K) (content closing rest : Span) : Token K :=
  { t with content := some content, closing := some closing, rest := some rest, state := .closed }

/-- Adds a child to a group and stretches the group over it. An empty literal is
left out, and a token that is no group stays as it is. -/
def attach (t : Token K) (child : Nat) (span : Span) (emptyLiteral : Bool) : Token K :=
  match emptyLiteral, t.variant with
  | false, .group children =>
    let content := match children, t.content with
      | _ :: _, some content => content.join span
      | _, _ => span
    { t with
      variant := .group (children ++ [child])
      opening := some (.empty content.start)
      content := some content
      closing := some (.empty content.stop)
      rest := some (.empty content.stop) }
  | _, _ => t

variable [DecidableEq K] [Taxonomy K]

/-- The error of calling a token against its life cycle. -/
def misused (t : Token K) (violation : Violation) : Error := .misuse (Taxonomy.name t.kind) violation

/-- Opens a token: its body is what follows the open delimiter. -/
def begin (t : Token K) : Except Error (Token K) :=
  match t.state, t.opening with
  | .opened, _ => .error (t.misused .alreadyOpened)
  | .closed, _ => .error (t.misused .alreadyClosed)
  | .unopened, none => .error (t.misused .openingUnknown)
  | .unopened, some o =>
    .ok { t with body := some ⟨o.stop, t.stream.stop⟩, cursor := 0, state := .opened }

/-- The body of a token that may be closed. -/
def closable (t : Token K) : Except Error Span :=
  match t.state, t.body with
  | .closed, _ => .error (t.misused .alreadyClosed)
  | .opened, some body => .ok body
  | _, _ => .error (t.misused .notOpened)

/-- Closes a token at its cursor with the close delimiter `closing`. Without one
the close has to be forced, and the delimiter is empty. -/
def close (t : Token K) (closing : Option Span) (force : Bool) : Except Error (Token K) := do
  let body ← t.closable
  let cut := body.start + t.cursor
  match closing, force with
  | none, false => .error (t.misused .closingUnknown)
  | none, true => .ok (t.finish ⟨body.start, cut⟩ (.empty cut) ⟨cut, t.stream.stop⟩)
  | some c, _ => .ok (t.finish ⟨body.start, cut⟩ c ⟨c.stop, t.stream.stop⟩)

/-- Closes a token at its cursor because the close delimiter `closing` of the
enclosing tag starts there. A literal swallows it, and its level is over. -/
def yield (t : Token K) (closing : Span) : Except Error (Token K) := do
  let body ← t.closable
  let cut := body.start + t.cursor
  let done := t.finish ⟨body.start, cut⟩ (.empty cut) (.empty t.stream.stop)
  match t.variant with
  | .literal _ => .ok { done with variant := .literal (some closing) }
  | _ => .ok done

/-- Takes the whole stream as content, without a scan. -/
def absorb (t : Token K) : Except Error (Token K) :=
  match t.state with
  | .closed => .error (t.misused .alreadyClosed)
  | _ =>
    let stop := Span.empty t.stream.stop
    .ok ({ t with body := some t.stream, cursor := t.stream.length }.finish t.stream stop stop)

end Token

end Bracketry
