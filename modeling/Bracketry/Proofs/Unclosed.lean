import Bracketry.Proofs.Machine
import Bracketry.Proofs.Partition

/-!
# Tags that the end of the text leaves open

A rule may close its tags at the end of the text. The scan asks it there wherever plain
text runs out: in the content of a tag, or in a literal behind a tag inside it. It does not
ask where a tag inside ends with the text, because nothing is left for a literal then.

* `OutlineOpen.staysOpen`: the tag that reading a source leaves open, where it stands and
  why it does not close at the end.
* `scan_leaves_open`: **a scan that fails on an open tag names a tag of the source that
  does not close at the end of the text,** or that holds a tag which ends with the text.
* `Template.scan_heading_open`: the exception is real.
-/

namespace Bracketry

variable {K : Type} {rules : Ruleset K}

/-! ## Why a tag stays open -/

/-- The tag that an opening opens holds tags, and the last of them ends with the text. -/
inductive Opening.EndsInTag (rules : Ruleset K) (o : Opening K) (text : Text) : Prop
  | intro {inner : Opening K} {seed mid after : Text} {first last : Segment K}
      {siblings : List (Segment K)} :
      o.stop rules text = .opens seed inner mid → TagRead rules inner mid first after →
      LevelRead rules (o.tag text).closes after siblings none [] →
      (first :: siblings).getLast? = some last → last.isLiteral = false →
      EndsInTag rules o text

/-- A tag stands in a text where only `left` is left to read. It does not close at the end
of the text, or the last of the tags inside it ends there. -/
def StaysOpen (rules : Ruleset K) (t : Tag K) (left text : Text) : Prop :=
  ∃ before o, text = before ++ left ∧ rules.opening? left = some o ∧ t = o.tag left ∧
    (t.closes [] = none ∨ o.EndsInTag rules left)

theorem StaysOpen.prepend {t : Tag K} {left text whole : Text} (h : StaysOpen rules t left text)
    (before : Text) (hwhole : before ++ text = whole) : StaysOpen rules t left whole := by
  obtain ⟨before', o, htext, hopens⟩ := h
  refine ⟨before ++ before', o, ?_, hopens⟩
  rw [← hwhole, htext, List.append_assoc]

/-- A tag that is not closed by the plain text of its content does not close at the end. -/
theorem closes_of_missing {o : Opening K} {text : Text} (h : o.stop rules text = .missing) :
    (o.tag text).closes [] = none := by
  have hstop := literalStop_eq rules (o.tag text).closes (Text.drop o.length text)
  unfold Opening.stop at h
  rw [h] at hstop
  exact (boundary_stop hstop).1

/-- A level that is read to the end of the text ends with a literal, and then the enclosing
tag does not close there, or it ends with a tag. -/
theorem LevelRead.closes_or_last {closes : Text → Option Nat} {text rest : Text}
    {segments : List (Segment K)} (h : LevelRead rules closes text segments none rest) :
    closes [] = none ∨ ∀ s, segments.getLast? = some s → s.isLiteral = false := by
  induction segments generalizing text with
  | nil =>
    right
    intro s hs
    cases hs
  | cons s segments ih =>
    cases h with
    | @literal _ _ plain mid _ _ _ _ _ hs hl =>
      cases segments with
      | cons s' rest' =>
        rcases ih hl with hnone | hlast
        · exact .inl hnone
        · exact .inr fun last hmem => hlast last hmem
      | nil =>
        -- nothing is left behind the literal, and the tag did not close there
        cases hl
        exact .inl (boundary_stop hs).1
    | tag _ _ ht hl =>
      rcases ih hl with hnone | hlast
      · exact .inl hnone
      · right
        intro last hmem
        cases segments with
        | cons s' rest' => exact hlast last hmem
        | nil =>
          cases hmem
          exact ht.isLiteral_eq

/-- A tag whose level is read to the end of the text stays open for one of the two reasons. -/
theorem closes_or_endsInTag {o inner : Opening K} {text seed mid after rest : Text}
    {first : Segment K} {siblings : List (Segment K)} (hs : o.stop rules text = .opens seed inner mid)
    (hf : TagRead rules inner mid first after)
    (hl : LevelRead rules (o.tag text).closes after siblings none rest) :
    (o.tag text).closes [] = none ∨ o.EndsInTag rules text := by
  obtain rfl := hl.rest_eq_nil
  rcases hl.closes_or_last with hnone | hlast
  · exact .inl hnone
  · right
    cases hsiblings : siblings.getLast? with
    | some last =>
      have hwhole : (first :: siblings).getLast? = some last := by
        rw [List.getLast?_cons, hsiblings]
        rfl
      exact .intro hs hf hl hwhole (hlast last hsiblings)
    | none =>
      -- without siblings the first tag inside is the last one
      have hwhole : (first :: siblings).getLast? = some first := by
        rw [List.getLast?_cons, hsiblings]
        rfl
      exact .intro hs hf hl hwhole hf.isLiteral_eq

mutual

theorem TagOpen.staysOpen {o : Opening K} {text left : Text} {t : Tag K}
    (h : TagOpen rules t left o text) (ho : rules.opening? text = some o) :
    StaysOpen rules t left text := by
  match h with
  | .missing ht hleft hs =>
    rw [ht, hleft]
    exact ⟨[], o, rfl, ho, rfl, .inl (closes_of_missing hs)⟩
  | .first hs hf =>
    obtain ⟨htext, hinner⟩ := Opening.text_of_opens hs
    exact (hf.staysOpen hinner).prepend _ htext
  | .level hs hf hl =>
    obtain ⟨htext, -⟩ := Opening.text_of_opens hs
    exact ((hl.staysOpen).prepend _ hf.text_eq).prepend _ htext
  | .ended ht hleft hs hf hl =>
    rw [ht, hleft]
    exact ⟨[], o, rfl, ho, rfl, closes_or_endsInTag hs hf hl⟩

theorem LevelOpen.staysOpen {closes : Text → Option Nat} {text left : Text} {t : Tag K}
    (h : LevelOpen rules t left closes text) : StaysOpen rules t left text := by
  match h with
  | .literal _ _ hs hl => exact (hl.staysOpen).prepend _ (Ruleset.literalStop_boundary hs)
  | .here _ ho hb => exact hb.staysOpen ho
  | .later _ ho ht hl => exact (hl.staysOpen).prepend _ ht.text_eq

end

/-- **The tag that reading a source leaves open** stands where it opens, and it does not
close at the end of the text, or a tag inside it ends there. -/
theorem OutlineOpen.staysOpen {source left : Text} {t : Tag K}
    (h : OutlineOpen rules source t left) : StaysOpen rules t left source := by
  rcases h with ⟨o, ho, hb⟩ | hl
  · exact hb.staysOpen ho
  · exact hl.staysOpen

/-! ## Scans -/

/-- What is left of a text is found again by its position. -/
theorem Scanner.drop_offset (s : Scanner K) {before left : Text} (h : s.source = before ++ left) :
    Text.drop (s.offset left) s.source = left := by
  rw [s.offset_eq h, h, Text.drop_bytes_append]

section

variable [DecidableEq K] [Taxonomy K] {limits : Limits} {source : Text}

/-- **A scan that fails on an open tag names a tag that opens at the offset.** Its rule does
not close it at the end of the text, unless the tag holds tags and the last of them ends
with the text. -/
theorem scan_leaves_open {opening : String} {expected : Option String} {offset : Nat}
    (h : TokenTree.scan rules limits source = .error (.unclosed opening expected offset)) :
    ∃ o, rules.opening? (Text.drop offset source) = some o ∧
      Error.unclosed opening expected offset =
        (o.tag (Text.drop offset source)).unclosed offset ∧
      ((o.tag (Text.drop offset source)).closes [] = none ∨
        o.EndsInTag rules (Text.drop offset source)) := by
  have hanswers := TokenTree.scan_answers rules limits source
  generalize herror : Error.unclosed opening expected offset = e at h
  rw [h] at hanswers
  cases hanswers with
  | limit hl =>
    rw [← herror] at hl
    exact hl.elim
  | @unclosed t left hopen =>
    obtain ⟨before, o, hsource, ho, rfl, hstays⟩ := hopen.staysOpen
    have hoffset : offset = (Scanner.mk rules limits source).offset left := by
      injection herror
    have hleft : Text.drop offset source = left := by
      rw [hoffset]
      exact (Scanner.mk rules limits source).drop_offset hsource
    refine ⟨o, ?_, ?_, ?_⟩
    · rw [hleft, ho]
    · rw [hleft, hoffset]
    · rw [hleft]
      exact hstays

end

/-! ## A tag that ends with its line -/

/-- A tag that its line ends, and with the last line the text. -/
def Rule.line (kind : K) (opening : Text) : Rule K where
  kind := kind
  opens := Text.lengthAt? opening
  closes := fun _ text =>
    match text with
    | [] => some 0
    | c :: _ => if c = '\n' then some 1 else none

namespace Template

/-- Headings that their line ends, and tags in angle brackets. -/
def headings : Ruleset Kind := ⟨.text, .document, [.line .var ['#'], .pair .filter ['<'] ['>']]⟩

/-- A heading that ends with a tag. -/
def heading : Text := ['#', '<', 'b', '>']

theorem scan_leaves_open_heading :
    TokenTree.scan headings .default heading = .error (.unclosed "#" none 0) ∧
      ∃ o, headings.opening? (Text.drop 0 heading) = some o ∧
        Error.unclosed "#" none 0 = (o.tag (Text.drop 0 heading)).unclosed 0 ∧
        ((o.tag (Text.drop 0 heading)).closes [] = none ∨
          o.EndsInTag headings (Text.drop 0 heading)) := by
  have h : TokenTree.scan headings .default heading = .error (.unclosed "#" none 0) := by cbv
  exact ⟨h, scan_leaves_open h⟩

/-- A tag may stay open although its rule closes it at the end of the text: behind the tag
in angle brackets nothing is left, and the heading is not closed. -/
theorem scan_heading_open : ∃ o,
    TokenTree.scan headings .default heading = .error (.unclosed "#" none 0) ∧
      headings.opening? (Text.drop 0 heading) = some o ∧
      (o.tag (Text.drop 0 heading)).closes [] = some 0 := by
  refine ⟨⟨0, .line .var ['#'], 1, Nat.zero_lt_one⟩, by cbv, rfl, rfl⟩

end Template

end Bracketry
