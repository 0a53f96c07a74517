import Bracketry.TokenTree

/-!
# Scanning by positions

The scan once more, on the level on which it slices the source: by tokens that are written again
and again, by spans and by byte positions relative to them. Nothing here knows the text that is
left to read. Every slice of the source, every cut at a length that a rule reported and every write
to a token is recorded, also in a pass that fails. A slice that is no slice of the source ends the
program, and so does a cut whose sum leaves the machine words, in a build that checks its sums. The
pass here goes on, and its record tells.

* `Scanner.process`: a token is read to its end, position by position.
* `Scanner.assemble`: the tokens of a level are read and put into a group.
* `Scanner.parse`: a source is read, and all that was done is told.
-/

namespace Bracketry

/-- What a pass does. -/
inductive Event
  /-- The source is sliced. -/
  | cut (span : Span)
  /-- The start of a span is cut off, as long as a rule says. -/
  | take (span : Span) (length : Nat)
  /-- A token is written, and its cursor moves. -/
  | write (id old new : Nat)
  deriving DecidableEq, Repr

/-- The tokens that were admitted so far, and all that was done, the latest first. -/
structure Pass (K : Type) where
  tokens : List (Token K)
  events : List Event

/-- A part of a pass. It ends with a result or with an error. It has no end if it goes on
forever or asks for a token that there is not. -/
abbrev Walk (K α : Type) : Type := ExceptT Error (StateT (Pass K) Option) α

namespace Walk

variable {K α : Type}

/-- The answer of a part of a pass, and the pass after it. -/
def runFrom (w : Walk K α) (p : Pass K) : Option (Except Error α × Pass K) :=
  StateT.run (ExceptT.run w) p

/-- A run that looks at nothing. -/
def lift (run : Except Error α) : Walk K α := ExceptT.mk fun p => some (run, p)

/-- What has no end. A loop comes to it that does not get closer to the end of the source. -/
def endless : Walk K α := ExceptT.mk fun _ => none

/-- The token of a number. -/
def token (id : Nat) : Walk K (Token K) :=
  ExceptT.mk fun p => p.tokens[id]?.map fun t => (.ok t, p)

/-- Calls the token of a number. -/
def update (id : Nat) (call : Token K → Except Error (Token K)) : Walk K Unit :=
  ExceptT.mk fun p =>
    match p.tokens[id]? with
    | none => none
    | some t =>
      match call t with
      | .error e => some (.error e, p)
      | .ok t' => some (.ok (), ⟨p.tokens.set id t', .write id t.cursor t'.cursor :: p.events⟩)

/-- The start of a span, as long as a rule says. -/
def take (span : Span) (length : Nat) : Walk K Span :=
  ExceptT.mk fun p => some (.ok (span.take length), { p with events := .take span length :: p.events })

/-- Puts a token into a group. -/
def append (group child : Nat) : Walk K Unit := do
  let t ← token child
  update group fun g =>
    .ok (g.attach child (t.span.getD default) (t.isLiteral && t.content.all Span.isEmpty))

end Walk

/-- What happens at one position of a token. -/
inductive Step
  /-- Nothing. -/
  | goOn
  /-- The token ends, at its close delimiter or at a place where plain text stops. -/
  | close (closing : Option Span)
  /-- Plain text runs into the close delimiter of the enclosing tag. -/
  | yield (closing : Span)
  /-- The rest of the content was delegated to a level. The token goes on `consumed` bytes into
  its content, with its close delimiter. -/
  | delegate (level : Level) (consumed : Nat) (closing : Span)

namespace Scanner

open Walk

variable {K : Type} (s : Scanner K)

/-- Slices the source. -/
def cut (span : Span) : Walk K Text :=
  ExceptT.mk fun p => some (.ok (span.slice s.source), { p with events := .cut span :: p.events })

/-- Slices the source where a span is known. -/
def cut? : Option Span → Walk K Text
  | some span => s.cut span
  | none => pure []

/-- Admits a token and gives it the next number. -/
def addToken (token : Token K) : Walk K Nat :=
  ExceptT.mk fun p =>
    match s.limits.grant p.tokens.length with
    | .error e => some (.error e, p)
    | .ok _ => some (.ok p.tokens.length, { p with tokens := p.tokens ++ [token] })

/-- Admits the token that starts where a span does. -/
def dispatch (stream : Span) (parent : Option Nat) : Walk K Nat := do
  let text ← s.cut stream
  match s.rules.opening? text with
  | some o => do
    let rule ← lift (s.rules.rule o.index)
    let opening ← take stream o.length
    s.addToken (.tag rule.kind o.index stream opening parent)
  | none => s.addToken (.literal s.rules.literalKind stream parent)

/-- The close delimiter of the enclosing tag, if it starts where a span does. -/
def parentClose (parent : Option Nat) (probe : Span) : Walk K (Option Span) :=
  match parent with
  | none => pure none
  | some parent => do
    let t ← token parent
    match t.variant with
    | .tag index => do
      let opening ← s.cut? t.opening
      let rule ← lift (s.rules.rule index)
      let text ← s.cut probe
      match rule.closes opening text with
      | some n => do
        let closing ← take probe n
        pure (some closing)
      | none => pure none
    | _ => pure none

/-- Whether a literal has to stop `pos` bytes into its body. -/
def atBoundary (body : Span) (pos : Nat) : Walk K Bool := do
  let text ← s.cut body
  if Text.bytes text ≤ pos then pure true
  else do
    let rest ← s.cut ⟨body.start + pos, body.stop⟩
    pure (s.rules.opening? rest).isSome

/-- What is left to do when a token is closed: the extra fields of a tag, and a look at the
content for the log. -/
def closed (id : Nat) : Walk K Unit := do
  let t ← token id
  match t.variant with
  | .tag index => do
    let opening ← s.cut? t.opening
    let content ← s.cut? t.content
    let extra := s.rules.rules[index]?.bind fun rule => rule.extra opening content
    update id fun t => .ok (t.annotate extra)
  | _ => pure ()
  let t ← token id
  let _ ← s.cut? t.content
  pure ()

variable [DecidableEq K] [Taxonomy K]

/-- Fails because the end of the source left a token open. -/
def unclosed {α : Type} (id : Nat) : Walk K α := do
  let t ← token id
  let opening ← s.cut? t.opening
  let expected :=
    match t.variant with
    | .tag index => s.rules.rules[index]?.bind fun rule => rule.guess opening
    | _ => none
  lift (.error (.unclosed
    (if opening = [] then Taxonomy.name t.kind else String.ofList opening)
    (expected.map String.ofList) t.stream.start))

/-- The group of a level: the token at hand if it is one, else a new group around it. -/
def grouped (level : Level) (current : Nat) : Walk K Nat := do
  let t ← token current
  if t.isGroup then pure current
  else do
    let group ← s.addToken (.group s.rules.groupKind ⟨t.stream.start, level.stream.stop⟩ t.parent)
    append group current
    pure group

mutual

/-- Opens a token and reads it to its end. -/
def process (s : Scanner K) (g : Gauge) (id : Nat) : Walk K Unit := do
  update id Token.begin
  let t ← token id
  match t.body with
  | some body => readFrom s g id body 0
  | none => lift (.error (t.misused .notOpened))
termination_by (s.limits.depth - g.depth, 3, 0)

/-- Reads a token on from the position `pos` of its body. -/
def readFrom (s : Scanner K) (g : Gauge) (id : Nat) (body : Span) (pos : Nat) : Walk K Unit := do
  update id fun t => .ok (t.moveTo pos)
  match ← step s g id body pos with
  | .goOn => do
    let text ← s.cut (body.drop pos)
    match text with
    -- a character that is left lies within the body
    | c :: _ => if pos < body.length then readFrom s g id body (pos + c.utf8Size) else endless
    | [] => s.unclosed id
  | .close closing => do
    update id fun t => t.close closing closing.isNone
    s.closed id
  | .yield closing => do
    update id fun t => t.yield closing
    s.closed id
  | .delegate level consumed closing => do
    update id fun t => .ok (t.moveTo consumed)
    update id fun t => .ok (t.delegate level)
    update id fun t => t.close (some closing) true
    s.closed id
termination_by (s.limits.depth - g.depth, 2, body.length - pos)
decreasing_by
  · exact .right _ (.left _ _ (by decide))
  · have hsize := Char.utf8Size_pos ‹Char›
    exact .right _ (.right _ (by omega))

/-- Looks at the position `pos` of the body of a token. -/
def step (s : Scanner K) (g : Gauge) (id : Nat) (body : Span) (pos : Nat) : Walk K Step := do
  let probe := body.drop pos
  let t ← token id
  match t.variant with
  | .tag index => do
    let opening ← s.cut? t.opening
    let rule ← lift (s.rules.rule index)
    let text ← s.cut probe
    match rule.closes opening text with
    | some n => do
      let closing ← take probe n
      pure (.close (some closing))
    | none => do
      let text ← s.cut probe
      match s.rules.opening? text with
      | none => pure .goOn
      | some _ => delegate s g id body pos
  | .literal _ => do
    match ← s.parentClose t.parent probe with
    | some closing => pure (.yield closing)
    | none => do
      if ← s.atBoundary body pos then pure (.close none)
      else pure .goOn
  | .group _ => lift (.error (t.misused .alreadyClosed))
termination_by (s.limits.depth - g.depth, 1, 0)

/-- Delegates the content of a tag from the position `pos` on to a level one deeper. -/
def delegate (s : Scanner K) (g : Gauge) (id : Nat) (body : Span) (pos : Nat) : Walk K Step :=
  match _h : g.enter.check s.limits.depth with
  | .error e => lift (.error e)
  | .ok () => do
    let probe := body.drop pos
    let nested ← s.dispatch probe (some id)
    let (group, level) ← assemble s g.enter (.fresh probe) (some (nested, body.take pos))
    let t ← token group
    let stop := (t.span.map Span.stop).getD probe.start
    match level.swallowed with
    | some closing => pure (.delegate level (stop - body.start) closing)
    | none => s.unclosed id
termination_by (s.limits.depth - g.depth, 0, 0)
decreasing_by exact .left _ _ (Gauge.room_enter _h)

/-- Reads the tokens of a level. On a delegated one the first tag was admitted already, and the
plain text before it was read. The answer is the token that stands for the level. -/
def assemble (s : Scanner K) (g : Gauge) (level : Level) (nested : Option (Nat × Span)) :
    Walk K (Nat × Level) :=
  match nested with
  | none => do
    let first ← s.dispatch level.stream none
    process s g first
    goOn s g level first first (level.stream.length + 1)
  | some (first, preceding) => do
    let t ← token first
    let seed ← s.addToken (.literal s.rules.literalKind preceding t.parent)
    update seed Token.absorb
    let group ← s.addToken (.group s.rules.groupKind ⟨preceding.start, level.stream.stop⟩ t.parent)
    append group seed
    process s g first
    append group first
    goOn s g level group first (level.stream.length + 1)
termination_by (s.limits.depth - g.depth, 5, 0)

/-- Reads the tokens of a level that follow the token `last`, while less than `room` bytes are
left. -/
def goOn (s : Scanner K) (g : Gauge) (level : Level) (current last room : Nat) :
    Walk K (Nat × Level) := do
  let t ← token last
  match t.rest.filter fun rest => !rest.isEmpty with
  | some rest =>
    if rest.length < room then do
      let c ← token current
      let next ← s.dispatch rest c.parent
      process s g next
      let group ← s.grouped level current
      append group next
      goOn s g level group next rest.length
    else endless
  | none => pure (current, { level with token := some current, swallowed := t.swallowed })
termination_by (s.limits.depth - g.depth, 4, room)

end

/-- Reads the source from a pass without tokens: the tree or the error, and all that was done. -/
def parse : Option (Except Error (TokenTree K) × List Event) := do
  let level := Level.fresh ⟨0, Text.bytes s.source⟩
  let (answer, pass) ← (s.assemble .start level none).runFrom ⟨[], []⟩
  match answer with
  | .error e => some (.error e, pass.events)
  | .ok (root, _) =>
    if h : root < pass.tokens.toArray.size then
      some (.ok ⟨s.source, pass.tokens.toArray, root, h⟩, pass.events)
    else none

end Scanner

end Bracketry
