import Bracketry.InPlace
import Bracketry.Token

/-!
# Calls on a token

The calls of a token, made in place: each reads and writes the fields of one token. They may come in
any order and with any arguments.

* `Token.Call.write_eq`: **a call made in place does what the call of the token says,** and one that
  fails writes nothing.
-/

namespace Bracketry.Token

/-- The calls of a token, with their arguments. -/
inductive Call
  | begin
  | close (closing : Option Span) (force : Bool)
  | yield (closing : Span)
  | absorb
  | moveTo (cursor : Nat)
  | attach (child : Nat) (span : Span) (emptyLiteral : Bool)
  | delegate (level : Level)
  | annotate (extra : Option Bindings)
  deriving DecidableEq, Repr

variable {K : Type} [DecidableEq K] [Taxonomy K]

/-! ## The steps of a call -/

namespace Writes

/-- Fails with a violation, in the name of the token as it is. -/
def misuse {α : Type} (violation : Violation) : InPlace (Token K) α := do
  throw ((← get).misused violation)

def begin : InPlace (Token K) Unit := do
  match (← get).state with
  | .opened => misuse .alreadyOpened
  | .closed => misuse .alreadyClosed
  | .unopened =>
    match (← get).opening with
    | none => misuse .openingUnknown
    | some opening =>
      let stop := (← get).stream.stop
      modify fun t => { t with body := some ⟨opening.stop, stop⟩ }
      modify fun t => { t with cursor := 0 }
      modify fun t => { t with state := .opened }

/-- The body of a token that may be closed. -/
def closable : InPlace (Token K) Span := do
  match (← get).state, (← get).body with
  | .closed, _ => misuse .alreadyClosed
  | .opened, some body => pure body
  | _, _ => misuse .notOpened

/-- Writes the spans of a token that ends. -/
def finish (content closing rest : Span) : InPlace (Token K) Unit := do
  modify fun t => { t with content := some content }
  modify fun t => { t with closing := some closing }
  modify fun t => { t with rest := some rest }
  modify fun t => { t with state := .closed }

def close (closing : Option Span) (force : Bool) : InPlace (Token K) Unit := do
  let body ← closable
  if closing.isNone && !force then misuse .closingUnknown
  let cut := body.start + (← get).cursor
  let closing := closing.getD (.empty cut)
  finish ⟨body.start, cut⟩ closing ⟨closing.stop, (← get).stream.stop⟩

def yield (closing : Span) : InPlace (Token K) Unit := do
  let body ← closable
  let cut := body.start + (← get).cursor
  finish ⟨body.start, cut⟩ (.empty cut) (.empty (← get).stream.stop)
  if (← get).isLiteral then modify fun t => { t with variant := .literal (some closing) }

def absorb : InPlace (Token K) Unit := do
  if (← get).state = .closed then misuse .alreadyClosed
  let stream := (← get).stream
  modify fun t => { t with body := some stream }
  modify fun t => { t with cursor := stream.length }
  finish stream (.empty stream.stop) (.empty stream.stop)

def attach (child : Nat) (span : Span) (emptyLiteral : Bool) : InPlace (Token K) Unit := do
  if emptyLiteral then return
  match (← get).variant with
  | .group children =>
    let content := match children, (← get).content with
      | _ :: _, some content => content.join span
      | _, _ => span
    modify fun t => { t with variant := .group (children ++ [child]) }
    modify fun t => { t with content := some content }
    modify fun t => { t with closing := some (.empty content.stop) }
    modify fun t => { t with rest := some (.empty content.stop) }
    modify fun t => { t with opening := some (.empty content.start) }
  | _ => return

end Writes

namespace Call

/-- What a call makes of a token. -/
def made : Call → Token K → Except Error (Token K)
  | .begin, t => t.begin
  | .close closing force, t => t.close closing force
  | .yield closing, t => t.yield closing
  | .absorb, t => t.absorb
  | .moveTo cursor, t => .ok (t.moveTo cursor)
  | .attach child span emptyLiteral, t => .ok (t.attach child span emptyLiteral)
  | .delegate level, t => .ok (t.delegate level)
  | .annotate extra, t => .ok (t.annotate extra)

/-- A call, made in place. -/
def write : Call → InPlace (Token K) Unit
  | .begin => Writes.begin
  | .close closing force => Writes.close closing force
  | .yield closing => Writes.yield closing
  | .absorb => Writes.absorb
  | .moveTo cursor => modify fun t => { t with cursor := cursor }
  | .attach child span emptyLiteral => Writes.attach child span emptyLiteral
  | .delegate level => modify fun t => { t with level := some level }
  | .annotate extra => modify fun t => { t with extra := extra }

/-- **A call made in place does what the call of the token says,** and a call that fails leaves
every field as it was. -/
theorem write_eq (c : Call) (t : Token K) :
    c.write t = InPlace.outcome t (c.made t) := by
  obtain ⟨kind, variant, stream, opening, body, content, closed, rest, cursor, state, parent, level,
    extra⟩ := t
  cases c with
  | begin => cases state <;> cases opening <;> rfl
  | close closing force => cases state <;> cases body <;> cases closing <;> cases force <;> rfl
  | yield closing => cases state <;> cases body <;> cases variant <;> rfl
  | absorb => cases state <;> rfl
  | moveTo cursor => rfl
  | attach child span emptyLiteral => cases emptyLiteral <;> cases variant <;> rfl
  | delegate level => rfl
  | annotate extra => rfl

end Call

instance : Calls Call (Token K) where
  write := Call.write
  made := Call.made
  write_eq := Call.write_eq

end Bracketry.Token
