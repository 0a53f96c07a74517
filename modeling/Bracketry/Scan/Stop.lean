import Bracketry.Ruleset

/-!
# Where plain text stops

Plain text is read one character at a time. Inside a tag it stops at the close
delimiter of that tag or at a tag that opens; a literal stops at the close
delimiter of the enclosing tag, at a tag that opens, or at the end.

* `contentStop_text`, `literalStop_text`: the parts are the text that was read.
-/

namespace Bracketry

variable {K : Type}

/-- How the plain text at the start of a tag's content ends. -/
inductive ContentStop (K : Type)
  /-- The close delimiter follows. -/
  | closed (content closing rest : Text)
  /-- A tag opens; `rest` begins with its open delimiter. -/
  | opens (content : Text) (opening : Opening K) (rest : Text)
  /-- The text ends. -/
  | missing

/-- Puts a character in front of the content. -/
def ContentStop.cons (c : Char) : ContentStop K → ContentStop K
  | .closed content closing rest => .closed (c :: content) closing rest
  | .opens content opening rest => .opens (c :: content) opening rest
  | .missing => .missing

/-- How a literal ends. -/
inductive LiteralStop
  /-- The close delimiter of the enclosing tag follows. -/
  | swallows (text closing rest : Text)
  /-- A tag opens or the text ends. -/
  | boundary (text rest : Text)

/-- Puts a character in front of a literal. -/
def LiteralStop.cons (c : Char) : LiteralStop → LiteralStop
  | .swallows text closing rest => .swallows (c :: text) closing rest
  | .boundary text rest => .boundary (c :: text) rest

namespace Ruleset

/-- Reads the content of a tag, whose close delimiter `closes` recognises, up to
the first place where the tag closes or another one opens. The tag's own close
delimiter comes first. -/
def contentStop (rules : Ruleset K) (closes : Text → Option Nat) (text : Text) : ContentStop K :=
  match closes text with
  | some n => .closed [] (Text.take n text) (Text.drop n text)
  | none =>
    match rules.opening? text with
    | some opening => .opens [] opening text
    | none =>
      match text with
      | [] => .missing
      | c :: rest => (contentStop rules closes rest).cons c

/-- Reads a literal up to the first place where the enclosing tag, whose close
delimiter `closes` recognises, closes or another one opens. -/
def literalStop (rules : Ruleset K) (closes : Text → Option Nat) (text : Text) : LiteralStop :=
  match closes text with
  | some n => .swallows [] (Text.take n text) (Text.drop n text)
  | none =>
    match text with
    | [] => .boundary [] []
    | c :: rest =>
      if (rules.opening? (c :: rest)).isSome then .boundary [] (c :: rest)
      else (literalStop rules closes rest).cons c

/-- The content, the close delimiter and the rest make up what was read. -/
theorem contentStop_text (rules : Ruleset K) (closes : Text → Option Nat) (text : Text) :
    match rules.contentStop closes text with
    | .closed content closing rest => content ++ closing ++ rest = text
    | .opens content opening rest => content ++ rest = text ∧ rules.opening? rest = some opening
    | .missing => True := by
  induction text with
  | nil =>
    unfold contentStop
    cases closes [] with
    | some n => simp
    | none => cases h : rules.opening? [] <;> simp [h]
  | cons c r ih =>
    unfold contentStop
    cases closes (c :: r) with
    | some n => simp [Text.take_append_drop]
    | none =>
      cases h : rules.opening? (c :: r) with
      | some o => simp [h]
      | none =>
        cases hs : rules.contentStop closes r <;> simp_all [ContentStop.cons]

/-- The literal, the close delimiter and the rest make up what was read. -/
theorem literalStop_text (rules : Ruleset K) (closes : Text → Option Nat) (text : Text) :
    match rules.literalStop closes text with
    | .swallows literal closing rest => literal ++ closing ++ rest = text
    | .boundary literal rest => literal ++ rest = text := by
  induction text with
  | nil =>
    unfold literalStop
    cases closes [] <;> simp
  | cons c r ih =>
    unfold literalStop
    cases closes (c :: r) with
    | some n => simp [Text.take_append_drop]
    | none =>
      cases h : rules.opening? (c :: r) with
      | some o => simp [h]
      | none => cases hs : rules.literalStop closes r <;> simp_all [LiteralStop.cons]

theorem contentStop_closed {rules : Ruleset K} {closes : Text → Option Nat}
    {text content closing rest : Text}
    (h : rules.contentStop closes text = .closed content closing rest) :
    content ++ closing ++ rest = text := by
  simpa [h] using rules.contentStop_text closes text

theorem contentStop_opens {rules : Ruleset K} {closes : Text → Option Nat}
    {text content rest : Text} {opening : Opening K}
    (h : rules.contentStop closes text = .opens content opening rest) :
    content ++ rest = text ∧ rules.opening? rest = some opening := by
  simpa [h] using rules.contentStop_text closes text

theorem literalStop_swallows {rules : Ruleset K} {closes : Text → Option Nat}
    {text literal closing rest : Text}
    (h : rules.literalStop closes text = .swallows literal closing rest) :
    literal ++ closing ++ rest = text := by
  simpa [h] using rules.literalStop_text closes text

theorem literalStop_boundary {rules : Ruleset K} {closes : Text → Option Nat}
    {text literal rest : Text} (h : rules.literalStop closes text = .boundary literal rest) :
    literal ++ rest = text := by
  simpa [h] using rules.literalStop_text closes text

/-- A literal that swallows nothing is not empty, if no tag opens where it starts. -/
theorem length_lt_of_boundary {rules : Ruleset K} {closes : Text → Option Nat} {text : Text}
    {literal rest : Text} (hopen : rules.opening? text = none) (hne : text ≠ [])
    (h : rules.literalStop closes text = .boundary literal rest) :
    rest.length < text.length := by
  have ht := literalStop_boundary h
  cases text with
  | nil => exact absurd rfl hne
  | cons c r =>
    unfold literalStop at h
    cases hc : closes (c :: r) with
    | some n => simp [hc] at h
    | none =>
      cases hr : rules.literalStop closes r with
      | swallows a b d => simp [hc, hopen, hr, LiteralStop.cons] at h
      | boundary a b =>
        simp [hc, hopen, hr, LiteralStop.cons] at h
        obtain ⟨rfl, rfl⟩ := h
        have := congrArg List.length ht
        simp only [List.length_append, List.length_cons] at this ⊢
        omega

end Ruleset

end Bracketry
