import Bracketry.Scan.Layout
import Bracketry.Scan.Read

/-!
# Token trees

The tokens of one source, numbered in the order of admission, under a root token
that stands for the whole source.

* `TokenTree.scan`: the token tree of a source text.
* `TokenTree.text`, `TokenTree.rebuilt`: what a token covers, as one slice and in
  parts.
-/

namespace Bracketry

structure TokenTree (K : Type) where
  source : Text
  tokens : Array (Token K)
  root : Nat
  root_lt : root < tokens.size

/-- A run over a list that succeeds has a result for each entry. -/
theorem length_of_mapM_eq_ok {α β : Type} {f : α → Except Error β} {l : List α} {r : List β}
    (h : l.mapM f = .ok r) : r.length = l.length := by
  induction l generalizing r with
  | nil => simp [pure, Except.pure] at h; simp [← h]
  | cons a l ih =>
    rw [List.mapM_cons] at h
    cases ha : f a with
    | error e => simp [ha, bind, Except.bind] at h
    | ok b =>
      cases hl : l.mapM f with
      | error e => simp [ha, hl, bind, Except.bind] at h
      | ok bs =>
        simp [ha, hl, bind, Except.bind, pure, Except.pure] at h
        simp [← h, ih hl]

namespace TokenTree

variable {K : Type}

/-- Scans a source text. The error is the first thing that the scan met. -/
def scan [DecidableEq K] [Taxonomy K] (rules : Ruleset K) (limits : Limits) (source : Text) :
    Except Error (TokenTree K) := do
  let outline ← (Scanner.mk rules limits source).outline
  let courses := outline.courses ⟨rules.literalKind, rules.groupKind, Text.bytes source⟩
  match h : courses.mapM Course.run with
  | .error e => .error e
  | .ok tokens =>
    .ok ⟨source, tokens.toArray, outline.root, by
      rw [List.size_toArray, length_of_mapM_eq_ok h]
      exact outline.root_lt_length_courses _⟩

/-- The number of tokens. -/
def size (t : TokenTree K) : Nat := t.tokens.size

/-- The token that stands for the whole source. -/
def rootToken (t : TokenTree K) : Token K := getElem t.tokens t.root t.root_lt

/-- The text of a span, or none of it where a token does not know the span. -/
def slice (t : TokenTree K) : Option Span → Text
  | some span => span.slice t.source
  | none => []

/-- All that a token covers. -/
def text (t : TokenTree K) (token : Token K) : Text := t.slice token.span

/-- The content of a token, without its delimiters. -/
def content (t : TokenTree K) (token : Token K) : Text := t.slice token.content

/-- The open delimiter, the content and the close delimiter of a token. -/
def rebuilt (t : TokenTree K) (token : Token K) : Text :=
  t.slice token.opening ++ t.slice token.content ++ t.slice token.closing

end TokenTree

end Bracketry
