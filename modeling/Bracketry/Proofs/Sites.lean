import Mathlib
import Bracketry.Proofs.Reading
import Bracketry.Proofs.Slices
import Bracketry.Template.Grammar

/-!
# Where the tokens of a source stand

A site is a segment with its place in the source: the number of its token, the
number of the enclosing tag, where it starts, and the number that the next token
gets. The sites of an outline are those of its segments and those of the parts of
a site. Every token of a scan is the token of a site, or the seed or the group of
a site that holds tags, or the group at the root.

* `Outline.stands_of_getElem?`, `Outline.Stands.getElem?_eq`: **the tokens of an
  outline are exactly those that stand somewhere in it.**
* `Outline.Sited.covers`: a site starts where the text of its segment does.
* `TokenTree.scan_drawn`: a token tree holds the tokens of what the scan read.
-/

namespace Bracketry

variable {K : Type}

/-! ## The token at the end of a course -/

/-- The token at the end of a course, in closed form. -/
def Course.token : Course K → Token K
  | .tag kind rule parent stream opening content closing level extra =>
    { Token.tag kind rule stream opening parent with
      body := some ⟨opening.stop, stream.stop⟩
      content := some ⟨opening.stop, opening.stop + content⟩
      closing := some closing
      rest := some ⟨closing.stop, stream.stop⟩
      cursor := content
      state := .closed
      level := level
      extra := extra }
  | .literal kind parent stream content swallowed =>
    { Token.literal kind stream parent with
      variant := .literal swallowed
      body := some stream
      content := some ⟨stream.start, stream.start + content⟩
      closing := some (.empty (stream.start + content))
      rest := some (match swallowed with
        | none => ⟨stream.start + content, stream.stop⟩
        | some _ => .empty stream.stop)
      cursor := content
      state := .closed }
  | .seed kind parent stream =>
    { Token.literal kind stream parent with
      body := some stream
      content := some stream
      closing := some (.empty stream.stop)
      rest := some (.empty stream.stop)
      cursor := stream.length
      state := .closed }
  | .group kind parent stream children =>
    children.foldl (fun t c => t.attach c.id c.span c.emptyLiteral) (Token.group kind stream parent)

theorem Course.run_eq [DecidableEq K] [Taxonomy K] (c : Course K) : c.run = .ok c.token := by
  cases c with
  | tag kind rule parent stream opening content closing level extra => cases level <;> rfl
  | literal kind parent stream content swallowed => cases swallowed <;> rfl
  | seed kind parent stream => rfl
  | group kind parent stream children => rfl

/-- A group stays one, whatever it takes in. -/
theorem Token.isGroup_attach (t : Token K) (child : Nat) (span : Span) (emptyLiteral : Bool) :
    (t.attach child span emptyLiteral).isGroup = t.isGroup := by
  unfold attach isGroup
  cases emptyLiteral <;> cases hv : t.variant <;> simp [hv]

/-! ## Sites -/

/-- A segment and its place in the source. -/
structure Site (K : Type) where
  segment : Segment K
  parent : Option Nat
  start : Nat
  id : Nat
  next : Nat

namespace Site

/-- The sites of segments in a row. -/
def row (parent : Option Nat) (start next : Nat) : List (Segment K) → List (Site K)
  | [] => []
  | s :: rest => ⟨s, parent, start, next, next + 1⟩ :: row parent (start + s.bytes) (next + s.count) rest

/-- The sites of the segments inside a tag. The first of them is admitted before
the seed and the group, and what is inside it after them. -/
def parts (site : Site K) : List (Site K) :=
  match site.segment with
  | .nest t seed first siblings _ =>
    let place := site.start + Text.bytes t.opening + Text.bytes seed
    ⟨first, some site.id, place, site.next, site.next + 3⟩ ::
      row (some site.id) (place + first.bytes) (site.next + 2 + first.count) siblings
  | _ => []

/-- The course of the token of a site. -/
def own (l : Layout K) (site : Site K) : Course K :=
  site.segment.own l site.parent site.start site.next

/-- The courses of the tokens inside a site. -/
def inner (l : Layout K) (site : Site K) : List (Course K) :=
  site.segment.inner l site.id site.start site.next

/-- A site as a group takes it in. -/
def child (site : Site K) : Child :=
  ⟨site.id, ⟨site.start, site.start + site.segment.bytes⟩, site.segment.isEmptyLiteral⟩

theorem map_segment_row (parent : Option Nat) (start next : Nat) (segments : List (Segment K)) :
    (row parent start next segments).map segment = segments := by
  induction segments generalizing start next with
  | nil => rfl
  | cons s rest ih => rw [row, List.map_cons, ih]

theorem asChildren_eq (parent : Option Nat) (start next : Nat) (segments : List (Segment K)) :
    Segment.asChildren start next segments = (row parent start next segments).map child := by
  induction segments generalizing start next with
  | nil => rfl
  | cons s rest ih => simp only [Segment.asChildren, row, List.map_cons, ih]; rfl

/-- The courses inside a tag that holds tags: its first part, the seed, the group
of its parts, and what is inside and after the first part. -/
theorem inner_nest (l : Layout K) (t : Tag K) (seed closing : Text) (first : Segment K)
    (siblings : List (Segment K)) (parent : Option Nat) (start id next : Nat) :
    (Segment.nest t seed first siblings closing).inner l id start next =
      first.own l (some id) (start + Text.bytes t.opening + Text.bytes seed) (next + 3) ::
      .seed l.literalKind (some id) (Segment.spanAt (start + Text.bytes t.opening) seed) ::
      .group l.groupKind (some id) ⟨start + Text.bytes t.opening, l.stop⟩
        (⟨next + 1, Segment.spanAt (start + Text.bytes t.opening) seed, seed.isEmpty⟩ ::
          (parts ⟨.nest t seed first siblings closing, parent, start, id, next⟩).map child) ::
      (first.inner l next (start + Text.bytes t.opening + Text.bytes seed) (next + 3) ++
        Segment.inner.row l (some id) (start + Text.bytes t.opening + Text.bytes seed + first.bytes)
          (next + 2 + first.count) siblings) := by
  rw [Segment.inner, asChildren_eq (some id)]
  rfl

end Site

namespace Outline

/-- The sites of the outermost level. -/
def sites : Outline K → List (Site K)
  | .single s => Site.row none 0 0 [s]
  | .series first second more =>
    Site.row none 0 0 [first, second] ++
      Site.row none (first.bytes + second.bytes) (first.count + second.count + 1) more

theorem map_segment_sites (o : Outline K) : o.sites.map Site.segment = o.segments := by
  cases o with
  | single s => rfl
  | series first second more =>
    rw [sites, List.map_append, Site.map_segment_row, Site.map_segment_row]
    rfl

/-- The sites of an outline, at any depth. -/
inductive Sited (o : Outline K) : Site K → Prop
  | top {site : Site K} : site ∈ o.sites → Sited o site
  | part {outer site : Site K} : Sited o outer → site ∈ outer.parts → Sited o site

/-- A course that stands under a number in an outline. -/
inductive Stands (l : Layout K) (o : Outline K) : Nat → Course K → Prop
  | own {site : Site K} : o.Sited site → Stands l o site.id (site.own l)
  | seed {t : Tag K} {seed closing : Text} {first : Segment K} {siblings : List (Segment K)}
      {parent : Option Nat} {start id next : Nat} :
      o.Sited ⟨.nest t seed first siblings closing, parent, start, id, next⟩ →
      Stands l o (next + 1) (.seed l.literalKind (some id)
        (Segment.spanAt (start + Text.bytes t.opening) seed))
  | group {t : Tag K} {seed closing : Text} {first : Segment K} {siblings : List (Segment K)}
      {parent : Option Nat} {start id next : Nat} :
      o.Sited ⟨.nest t seed first siblings closing, parent, start, id, next⟩ →
      Stands l o (next + 2) (.group l.groupKind (some id) ⟨start + Text.bytes t.opening, l.stop⟩
        (⟨next + 1, Segment.spanAt (start + Text.bytes t.opening) seed, seed.isEmpty⟩ ::
          (Site.parts ⟨.nest t seed first siblings closing, parent, start, id, next⟩).map Site.child))
  | root {first second : Segment K} {more : List (Segment K)} : o = .series first second more →
      Stands l o o.root (.group l.groupKind none ⟨0, l.stop⟩ (o.sites.map Site.child))

theorem courses_series (l : Layout K) (first second : Segment K) (more : List (Segment K)) :
    courses l (.series first second more) =
      Segment.inner.row l none 0 0 [first, second] ++
        (.group l.groupKind none ⟨0, l.stop⟩ ((sites (.series first second more)).map Site.child) ::
          Segment.inner.row l none (first.bytes + second.bytes) (first.count + second.count + 1)
            more) := by
  rw [courses, Site.asChildren_eq none, Site.asChildren_eq none, ← List.map_append]
  rfl

theorem length_row_pair (l : Layout K) (first second : Segment K) :
    (Segment.inner.row l none 0 0 [first, second]).length = first.count + second.count := by
  simp [Segment.length_row, Segment.count.counts]

/-! ## The courses of an outline are those that stand in it -/

/-- Some courses stand in a row in a list, the first under the number `n`. -/
def RowAt (all : List (Course K)) (n : Nat) (cs : List (Course K)) : Prop :=
  ∃ before after, all = before ++ (cs ++ after) ∧ before.length = n

namespace RowAt

variable {all cs ds : List (Course K)} {c : Course K} {n : Nat}

theorem head (h : RowAt all n (c :: cs)) : all[n]? = some c := by
  obtain ⟨before, after, rfl, rfl⟩ := h
  simp

theorem tail (h : RowAt all n (c :: cs)) : RowAt all (n + 1) cs := by
  obtain ⟨before, after, rfl, rfl⟩ := h
  exact ⟨before ++ [c], after, by simp, by simp⟩

theorem left (h : RowAt all n (cs ++ ds)) : RowAt all n cs := by
  obtain ⟨before, after, rfl, rfl⟩ := h
  exact ⟨before, ds ++ after, by simp, rfl⟩

theorem right (h : RowAt all n (cs ++ ds)) : RowAt all (n + cs.length) ds := by
  obtain ⟨before, after, rfl, rfl⟩ := h
  exact ⟨before ++ cs, after, by simp, by simp⟩

end RowAt

/-- The token of a site and the tokens inside it stand under its numbers. -/
structure Placed (l : Layout K) (all : List (Course K)) (site : Site K) : Prop where
  own : all[site.id]? = some (site.own l)
  inner : RowAt all site.next (site.inner l)

variable {l : Layout K} {o : Outline K}

theorem placed_row {all : List (Course K)} (parent : Option Nat) {start next : Nat}
    {segments : List (Segment K)} (h : RowAt all next (Segment.inner.row l parent start next segments)) :
    ∀ site ∈ Site.row parent start next segments, Placed l all site := by
  induction segments generalizing start next with
  | nil => intro site hs; cases hs
  | cons s rest ih =>
    intro site hs
    simp only [Segment.inner.row] at h
    rcases List.mem_cons.1 hs with rfl | hs
    · exact ⟨h.head, h.tail.left⟩
    · have hr := h.tail.right
      have hlen := Segment.length_inner l next start (next + 1) s
      rw [show next + 1 + (s.inner l next start (next + 1)).length = next + s.count by omega] at hr
      exact ih hr site hs

theorem placed_parts {all : List (Course K)} {outer : Site K} (h : Placed l all outer) :
    ∀ site ∈ outer.parts, Placed l all site := by
  obtain ⟨segment, parent, start, id, next⟩ := outer
  have hi := h.inner
  cases segment with
  | literal plain swallowed => intro site hs; cases hs
  | tag t content closing => intro site hs; cases hs
  | nest t seed first siblings closing =>
    intro site hs
    rw [Site.inner, Site.inner_nest _ _ _ _ _ _ parent] at hi
    rcases List.mem_cons.1 hs with rfl | hs
    · exact ⟨hi.head, hi.tail.tail.tail.left⟩
    · have hr := hi.tail.tail.tail.right
      have hlen := Segment.length_inner l next (start + Text.bytes t.opening + Text.bytes seed)
        (next + 3) first
      refine placed_row (some id) ?_ site hs
      rwa [show next + 1 + 1 + 1 + (first.inner l next (start + Text.bytes t.opening + Text.bytes seed)
        (next + 3)).length = next + 2 + first.count by omega] at hr

theorem placed_top : ∀ site ∈ o.sites, Placed l (o.courses l) site := by
  cases o with
  | single s => exact placed_row none ⟨[], [], by simp [courses], rfl⟩
  | series first second more =>
    intro site hs
    have hall : RowAt (courses l (.series first second more)) 0 _ :=
      ⟨[], [], by rw [courses_series, List.nil_append, List.append_nil], rfl⟩
    rcases List.mem_append.1 hs with hs | hs
    · exact placed_row none hall.left site hs
    · have hr := hall.right.tail
      rw [length_row_pair, Nat.zero_add] at hr
      exact placed_row none hr site hs

/-- Every site has its place among the courses of the outline. -/
theorem Sited.placed {site : Site K} (h : o.Sited site) : Placed l (o.courses l) site := by
  induction h with
  | top hs => exact placed_top _ hs
  | part _ hs ih => exact placed_parts ih _ hs

/-- **What stands under a number in an outline is its token of that number.** -/
theorem Stands.getElem?_eq {i : Nat} {c : Course K} (h : o.Stands l i c) :
    (o.courses l)[i]? = some c := by
  cases h with
  | own hs => exact hs.placed.own
  | @seed _ _ _ _ _ parent _ _ _ hs =>
    have hi := (hs.placed (l := l)).inner
    rw [Site.inner, Site.inner_nest _ _ _ _ _ _ parent] at hi
    exact hi.tail.head
  | @group _ _ _ _ _ parent _ _ _ hs =>
    have hi := (hs.placed (l := l)).inner
    rw [Site.inner, Site.inner_nest _ _ _ _ _ _ parent] at hi
    exact hi.tail.tail.head
  | root ho =>
    subst ho
    rw [courses_series, Outline.root, ← length_row_pair l]
    simp

mutual

theorem stands_inner {parent : Option Nat} {start id next : Nat} (s : Segment K)
    (h : o.Sited ⟨s, parent, start, id, next⟩) {j : Nat} {c : Course K}
    (hj : (s.inner l id start next)[j]? = some c) : o.Stands l (next + j) c := by
  cases s with
  | literal plain swallowed => simp [Segment.inner] at hj
  | tag t content closing => simp [Segment.inner] at hj
  | nest t seed first siblings closing =>
    have hp : ∀ site ∈ Site.parts ⟨.nest t seed first siblings closing, parent, start, id, next⟩,
        o.Sited site := fun _ => .part h
    obtain ⟨hfirst, hrow⟩ := List.forall_mem_cons.1 hp
    rw [Site.inner_nest _ _ _ _ _ _ parent] at hj
    -- the first part, its seed and the group stand before what is inside the parts
    match j with
    | 0 => cases hj; exact .own hfirst
    | 1 => cases hj; exact .seed h
    | 2 => cases hj; exact .group h
    | j + 3 =>
      simp only [List.getElem?_cons_succ] at hj
      have hlen := Segment.length_inner l next (start + Text.bytes t.opening + Text.bytes seed)
        (next + 3) first
      rcases Nat.lt_or_ge j (first.inner l next (start + Text.bytes t.opening + Text.bytes seed)
        (next + 3)).length with hlt | hge
      · rw [List.getElem?_append_left hlt] at hj
        have := stands_inner first hfirst hj
        rwa [show next + 3 + j = next + (j + 3) by omega] at this
      · rw [List.getElem?_append_right hge] at hj
        have := stands_row siblings hrow hj
        rwa [show next + 2 + first.count + (j - (first.inner l next _ (next + 3)).length) =
          next + (j + 3) by omega] at this

theorem stands_row {parent : Option Nat} {start next : Nat} (segments : List (Segment K))
    (h : ∀ site ∈ Site.row parent start next segments, o.Sited site) {j : Nat} {c : Course K}
    (hj : (Segment.inner.row l parent start next segments)[j]? = some c) :
    o.Stands l (next + j) c := by
  cases segments with
  | nil => simp [Segment.inner.row] at hj
  | cons s rest =>
    obtain ⟨hs, hrest⟩ := List.forall_mem_cons.1 h
    simp only [Segment.inner.row] at hj
    match j with
    | 0 => cases hj; exact .own hs
    | j + 1 =>
      rw [List.getElem?_cons_succ] at hj
      have hlen := Segment.length_inner l next start (next + 1) s
      rcases Nat.lt_or_ge j (s.inner l next start (next + 1)).length with hlt | hge
      · rw [List.getElem?_append_left hlt] at hj
        have := stands_inner s hs hj
        rwa [show next + 1 + j = next + (j + 1) by omega] at this
      · rw [List.getElem?_append_right hge] at hj
        have := stands_row rest hrest hj
        rwa [show next + s.count + (j - (s.inner l next start (next + 1)).length) =
          next + (j + 1) by omega] at this

end

/-- **Every token of an outline stands somewhere in it.** -/
theorem stands_of_getElem? {i : Nat} {c : Course K} (h : (o.courses l)[i]? = some c) :
    o.Stands l i c := by
  have hs : ∀ site ∈ o.sites, o.Sited site := fun _ => .top
  cases o with
  | single s =>
    have := stands_row [s] hs (l := l) h
    rwa [Nat.zero_add] at this
  | series first second more =>
    obtain ⟨hs1, hs2⟩ := List.forall_mem_append.1 hs
    -- the group at the root stands behind the first two segments
    have hlen := length_row_pair l first second
    rw [courses_series] at h
    rcases Nat.lt_or_ge i (first.count + second.count) with hlt | hge
    · rw [List.getElem?_append_left (by omega)] at h
      have := stands_row [first, second] hs1 h
      rwa [Nat.zero_add] at this
    · rw [List.getElem?_append_right (by omega), hlen] at h
      match hj : i - (first.count + second.count) with
      | 0 =>
        rw [hj] at h
        cases h
        rw [show i = Outline.root (.series first second more) by simp [Outline.root]; omega]
        exact .root rfl
      | j + 1 =>
        rw [hj, List.getElem?_cons_succ] at h
        have := stands_row more hs2 h
        rwa [show first.count + second.count + 1 + j = i by omega] at this

/-! ## The text of a site -/

theorem text_at_row {source : Text} (parent : Option Nat) (next : Nat) (before after : Text)
    (segments : List (Segment K)) (h : source = before ++ Segment.texts segments ++ after) :
    ∀ site ∈ Site.row parent (Text.bytes before) next segments,
      ∃ before after, source = before ++ site.segment.text ++ after ∧ Text.bytes before = site.start := by
  induction segments generalizing before next with
  | nil => intro site hs; cases hs
  | cons s rest ih =>
    intro site hs
    rw [Segment.texts_cons] at h
    rcases List.mem_cons.1 hs with rfl | hs
    · exact ⟨before, Segment.texts rest ++ after, by simp [h], rfl⟩
    · -- what is before the segment moves to what is before the rest
      refine ih (next + s.count) (before ++ s.text) (by simp [h]) site ?_
      rwa [Text.bytes_append, Segment.bytes_text]

/-- A site starts where the text of its segment does. -/
theorem Sited.text_at {site : Site K} (h : o.Sited site) :
    ∃ before after, o.text = before ++ site.segment.text ++ after ∧
      Text.bytes before = site.start := by
  induction h with
  | top hs =>
    cases o with
    | single s => exact text_at_row none 0 [] [] [s] (by simp [text, segments]) _ hs
    | series first second more =>
      rcases List.mem_append.1 hs with hs | hs
      · exact text_at_row none 0 [] (Segment.texts more) [first, second]
          (by simp [text, segments]) _ hs
      · refine text_at_row none (first.count + second.count + 1) (first.text ++ second.text) [] more
          (by simp [text, segments]) _ ?_
        rwa [Text.bytes_append, Segment.bytes_text, Segment.bytes_text]
  | @part outer site _ hs ih =>
    obtain ⟨before, after, ht, hb⟩ := ih
    obtain ⟨segment, parent, start, id, next⟩ := outer
    cases segment with
    | literal plain swallowed => cases hs
    | tag t content closing => cases hs
    | nest t seed first siblings closing =>
      simp only [Segment.text_nest] at ht hb
      subst hb
      rcases List.mem_cons.1 hs with rfl | hs
      · exact ⟨before ++ t.opening ++ seed, Segment.texts siblings ++ closing ++ after, by simp [ht],
          by simp [Nat.add_assoc]⟩
      · refine text_at_row (some id) (next + 2 + first.count) (before ++ t.opening ++ seed ++ first.text)
          (closing ++ after) siblings (by simp [ht]) site ?_
        simpa [Segment.bytes_text, Nat.add_assoc] using hs

/-- A site covers the text of its segment. -/
theorem Sited.covers {site : Site K} (h : o.Sited site) :
    (Segment.spanAt site.start site.segment.text).Covers o.text site.segment.text := by
  obtain ⟨before, after, ht, hb⟩ := h.text_at
  exact ⟨before, after, ht, by rw [hb]⟩

end Outline

/-! ## Token trees -/

namespace TokenTree

/-- What the tokens of a source have in common under a ruleset. -/
def layout (rules : Ruleset K) (source : Text) : Layout K :=
  ⟨rules.literalKind, rules.groupKind, Text.bytes source⟩

/-- A tree holds the tokens of an outline of its source. -/
structure Drawn (rules : Ruleset K) (t : TokenTree K) (o : Outline K) : Prop where
  read : OutlineRead rules t.source o
  root : t.root = o.root
  tokens : t.tokens.toList = (o.courses (layout rules t.source)).map Course.token

variable {rules : Ruleset K} {t : TokenTree K} {o : Outline K}

theorem Drawn.token_stands (h : t.Drawn rules o) {i : Nat} {token : Token K}
    (hi : t.tokens[i]? = some token) : ∃ c, o.Stands (layout rules t.source) i c ∧ token = c.token := by
  rw [← Array.getElem?_toList, h.tokens, List.getElem?_map] at hi
  obtain ⟨c, hc, rfl⟩ := Option.map_eq_some_iff.1 hi
  exact ⟨c, Outline.stands_of_getElem? hc, rfl⟩

theorem Drawn.getElem?_eq (h : t.Drawn rules o) {i : Nat} {c : Course K}
    (hc : o.Stands (layout rules t.source) i c) : t.tokens[i]? = some c.token := by
  rw [← Array.getElem?_toList, h.tokens, List.getElem?_map, hc.getElem?_eq]
  rfl

/-- The tree of what was read of a source. -/
def ofOutline (rules : Ruleset K) (source : Text) (o : Outline K) : TokenTree K :=
  ⟨source, ((o.courses (layout rules source)).map Course.token).toArray, o.root, by
    rw [List.size_toArray, List.length_map]
    exact o.root_lt_length_courses _⟩

theorem Drawn.eq_ofOutline (h : t.Drawn rules o) : t = ofOutline rules t.source o := by
  obtain ⟨source, tokens, root, hroot⟩ := t
  obtain rfl : root = o.root := h.root
  have htokens : tokens = ((o.courses (layout rules source)).map Course.token).toArray :=
    Array.ext' h.tokens
  subst htokens
  rfl

/-- A run whose result passes a test has a result. -/
theorem exists_ok_of_any {ε α : Type} {x : Except ε α} {p : α → Bool}
    (h : x.toOption.any p = true) : ∃ a, x = .ok a ∧ p a = true := by
  cases x with
  | error e => cases h
  | ok a => exact ⟨a, rfl, h⟩

variable [DecidableEq K] [Taxonomy K] {limits : Limits} {source : Text}

theorem mapM_run_eq (cs : List (Course K)) : cs.mapM Course.run = .ok (cs.map Course.token) := by
  induction cs with
  | nil => rfl
  | cons c cs ih => rw [List.mapM_cons, Course.run_eq, ih]; rfl

/-- A scan draws the tree of what it reads. -/
theorem scan_eq (rules : Ruleset K) (limits : Limits) (source : Text) :
    scan rules limits source =
      ((Scanner.mk rules limits source).outline >>= fun o => .ok (ofOutline rules source o)) := by
  unfold scan
  refine bind_congr fun o => ?_
  dsimp only
  split
  · next e he => rw [mapM_run_eq] at he; cases he
  · next tokens ht =>
    rw [mapM_run_eq] at ht
    cases ht
    rfl

/-- **A scan answers with a tree of what the grammar reads,** with the tag that the
grammar leaves open, or with a limit. -/
theorem scan_answers (rules : Ruleset K) (limits : Limits) (source : Text) :
    (Scanner.mk rules limits source).Answers (fun t => t.source = source ∧ ∃ o, t.Drawn rules o)
      (OutlineOpen rules source) (scan rules limits source) := by
  rw [scan_eq]
  refine (Scanner.mk rules limits source).outline_answers.bind (fun _ _ h => h) ?_
  intro o ho
  exact .ok ⟨rfl, o, ho, rfl, rfl⟩

/-- **A token tree holds the tokens of what the scan read.** -/
theorem scan_drawn (h : scan rules limits source = .ok t) :
    t.source = source ∧ ∃ o, t.Drawn rules o := by
  have ha := scan_answers rules limits source
  rw [h] at ha
  cases ha with
  | ok hd => exact hd

end TokenTree

/-- A template with a variable in an optional section between two texts. -/
def Template.sample : Text :=
  ['a', '\x7b', '?', 'b', '\x7b', '\x7b', 'c', '\x7d', '\x7d', '?', '\x7d', 'd']

theorem Template.scan_sample : ∃ t, TokenTree.scan rules .default sample = .ok t ∧
    (t.tokens[t.root]?).any Token.isGroup = true :=
  TokenTree.exists_ok_of_any (by cbv)

end Bracketry
