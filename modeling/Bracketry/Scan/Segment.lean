import Bracketry.Ruleset

/-!
# Segments

A scan cuts the source into segments: literals, tags, and tags whose content
holds tags again. A segment keeps its text and nothing else, so the segments of
a source say where everything is once the place of the first is known.

* `Segment.text`: what a segment covers; `text_nest` says it for a tag with tags
  inside.
* `Segment.bytes_text`: the length of that in bytes.
-/

namespace Bracketry

/-- A tag that was opened: its rule, the number of the rule, and its open
delimiter. -/
structure Tag (K : Type) where
  index : Nat
  rule : Rule K
  opening : Text

namespace Tag

variable {K : Type}

/-- The length of the close delimiter of a tag at the start of a text. -/
def closes (t : Tag K) : Text → Option Nat := t.rule.closes t.opening

/-- The extra fields of a tag with the given content. -/
def extra (t : Tag K) (content : Text) : Option Bindings := t.rule.extra t.opening content

/-- The error of a tag at byte `offset` that the end of the text left open. -/
def unclosed [DecidableEq K] [Taxonomy K] (t : Tag K) (offset : Nat) : Error :=
  .unclosed
    (if t.opening = [] then Taxonomy.name t.rule.kind else String.ofList t.opening)
    ((t.rule.guess t.opening).map String.ofList) offset

end Tag

/-- The tag that an opening at the start of `text` opens. -/
def Opening.tag {K : Type} (o : Opening K) (text : Text) : Tag K :=
  ⟨o.index, o.rule, Text.take o.length text⟩

inductive Segment (K : Type)
  /-- Plain text. `swallowed` is the close delimiter of the enclosing tag, if
  the text ended by running into it. -/
  | literal (text : Text) (swallowed : Option Text)
  /-- A tag with plain content. -/
  | tag (tag : Tag K) (content closing : Text)
  /-- A tag whose content holds tags: the plain text `seed` up to the first of
  them, and the segments after it, of which the last swallowed `closing`. -/
  | nest (tag : Tag K) (seed : Text) (first : Segment K) (siblings : List (Segment K))
      (closing : Text)

namespace Segment

variable {K : Type}

/-- The text that a segment covers, followed by `more`. A swallowed delimiter
belongs to the enclosing tag. -/
def textThen (more : Text) : Segment K → Text
  | .literal text _ => text ++ more
  | .tag t content closing => t.opening ++ (content ++ (closing ++ more))
  | .nest t seed first siblings closing =>
    t.opening ++ (seed ++ first.textThen (textsThen (closing ++ more) siblings))
where
  /-- The text that segments in a row cover, followed by `more`. -/
  textsThen (more : Text) : List (Segment K) → Text
    | [] => more
    | s :: rest => s.textThen (textsThen more rest)

/-- The text that a segment covers. -/
def text (s : Segment K) : Text := s.textThen []

/-- The text that segments in a row cover. -/
def texts (segments : List (Segment K)) : Text := textThen.textsThen [] segments

/-- The number of bytes that a segment covers. -/
def bytes : Segment K → Nat
  | .literal text _ => Text.bytes text
  | .tag t content closing => Text.bytes t.opening + Text.bytes content + Text.bytes closing
  | .nest t seed first siblings closing =>
    Text.bytes t.opening + (Text.bytes seed + first.bytes + total siblings) + Text.bytes closing
where
  /-- The number of bytes that segments in a row cover. -/
  total : List (Segment K) → Nat
    | [] => 0
    | s :: rest => s.bytes + total rest

/-- The close delimiter of the enclosing tag that a segment swallowed. -/
def swallowed : Segment K → Option Text
  | .literal _ swallowed => swallowed
  | _ => none

/-- A literal without text. -/
def isEmptyLiteral : Segment K → Bool
  | .literal text _ => text.isEmpty
  | _ => false

/-- The number of tokens that a segment admits: one for itself, and for a tag
with tags inside one for its seed, one for the group and those of its parts. -/
def count : Segment K → Nat
  | .literal _ _ => 1
  | .tag _ _ _ => 1
  | .nest _ _ first siblings _ => 3 + first.count + counts siblings
where
  counts : List (Segment K) → Nat
    | [] => 0
    | s :: rest => s.count + counts rest

mutual

theorem textThen_eq (more : Text) (s : Segment K) : s.textThen more = s.text ++ more := by
  cases s with
  | literal plain swallowed => simp only [text, textThen, List.append_nil]
  | tag t content closing => simp only [text, textThen, List.append_nil, List.append_assoc]
  | nest t seed first siblings closing =>
    simp only [text, textThen]
    rw [textThen_eq _ first, textThen_eq (textThen.textsThen _ _) first,
      textsThen_eq _ siblings, textsThen_eq (closing ++ []) siblings]
    simp only [List.append_nil, List.append_assoc]

theorem textsThen_eq (more : Text) (segments : List (Segment K)) :
    textThen.textsThen more segments = texts segments ++ more := by
  cases segments with
  | nil => rfl
  | cons s rest =>
    simp only [texts, textThen.textsThen]
    rw [textThen_eq _ s, textThen_eq (textThen.textsThen _ _) s, textsThen_eq _ rest, texts,
      List.append_assoc]

end

@[simp] theorem text_literal (literal : Text) (swallowed : Option Text) :
    (Segment.literal (K := K) literal swallowed).text = literal := List.append_nil literal

@[simp] theorem text_tag (t : Tag K) (content closing : Text) :
    (Segment.tag t content closing).text = t.opening ++ content ++ closing := by
  simp only [text, textThen, List.append_nil, List.append_assoc]

/-- A tag with tags inside covers its delimiters, its seed and its segments. -/
@[simp] theorem text_nest (t : Tag K) (seed : Text) (first : Segment K)
    (siblings : List (Segment K)) (closing : Text) :
    (Segment.nest t seed first siblings closing).text =
      t.opening ++ (seed ++ first.text ++ texts siblings) ++ closing := by
  rw [text, textThen, textThen_eq _ first, textsThen_eq _ siblings]
  simp only [List.append_nil, List.append_assoc]

@[simp] theorem texts_nil : texts ([] : List (Segment K)) = [] := rfl

@[simp] theorem texts_cons (s : Segment K) (rest : List (Segment K)) :
    texts (s :: rest) = s.text ++ texts rest := textThen_eq _ s

mutual

/-- The bytes counted are those of the text. -/
theorem bytes_text (s : Segment K) : Text.bytes s.text = s.bytes := by
  cases s with
  | literal plain swallowed => rw [text_literal, bytes]
  | tag t content closing => rw [text_tag, Text.bytes_append, Text.bytes_append, bytes]
  | nest t seed first siblings closing =>
    rw [text_nest, Text.bytes_append, Text.bytes_append, Text.bytes_append, Text.bytes_append,
      bytes_text first, bytes_texts siblings, bytes]

theorem bytes_texts (segments : List (Segment K)) :
    Text.bytes (texts segments) = bytes.total segments := by
  cases segments with
  | nil => rfl
  | cons s rest => rw [texts_cons, Text.bytes_append, bytes_text s, bytes_texts rest, bytes.total]

end

end Segment

/-- The segments of a whole source. -/
inductive Outline (K : Type)
  /-- One segment covers the source. -/
  | single (segment : Segment K)
  /-- The source falls into two or more segments. -/
  | series (first second : Segment K) (more : List (Segment K))

namespace Outline

variable {K : Type}

def segments : Outline K → List (Segment K)
  | .single s => [s]
  | .series first second more => first :: second :: more

def text (o : Outline K) : Text := Segment.texts o.segments

end Outline

end Bracketry
