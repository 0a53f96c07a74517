import Bracketry.Proofs.Sites

/-!
# Tokens cover the source without gaps

Every token of a scan is closed and cut out of the source in three parts: its
open delimiter, its content and its close delimiter. Groups are cut like tags,
with empty delimiters, because their children stand in a row.

* `Course.token_group`: a group whose children stand in a row, in closed form.
* `Outline.Stands.cut`: every token of an outline is cut out of its text.
* `scan_seamless`: **in a scanned tree every token is closed, and its parts are
  next to each other and give its text back.**
-/

namespace Bracketry

variable {K : Type}

open Segment (spanAt)

/-! ## Groups -/

/-- Children in a row from one position to another. An empty literal covers
nothing. -/
inductive Abut : Nat → List Child → Nat → Prop
  | nil (a : Nat) : Abut a [] a
  | cons {a m b : Nat} {c : Child} {rest : List Child} :
      c.span = ⟨a, m⟩ → a ≤ m → (c.emptyLiteral = true → m = a) → Abut m rest b →
      Abut a (c :: rest) b

/-- The numbers of the children that a group keeps. -/
def kept (children : List Child) : List Nat :=
  (children.filter fun c => !c.emptyLiteral).map Child.id

/-- A group that has taken in some children from one position to another. -/
def Token.grown (t : Token K) (ids : List Nat) (a b : Nat) : Token K :=
  { t with
    variant := .group ids
    opening := some (.empty a)
    content := some ⟨a, b⟩
    closing := some (.empty b)
    rest := some (.empty b) }

theorem Abut.append {a m b : Nat} {cs ds : List Child} (hc : Abut a cs m) (hd : Abut m ds b) :
    Abut a (cs ++ ds) b := by
  induction hc with
  | nil a => exact hd
  | cons h1 h2 h3 _ ih => exact .cons h1 h2 h3 (ih hd)

theorem Token.attach_grown (t : Token K) {ids : List Nat} {a m n : Nat} {c : Child}
    (hspan : c.span = ⟨m, n⟩) (ham : a ≤ m) (hmn : m ≤ n) (hids : ids = [] → a = m)
    (he : c.emptyLiteral = false) :
    (t.grown ids a m).attach c.id c.span c.emptyLiteral = t.grown (ids ++ [c.id]) a n := by
  rw [he, hspan]
  cases ids with
  | nil => rw [hids rfl]; rfl
  | cons i ids =>
    have h1 : min a m = a := Nat.min_eq_left ham
    have h2 : max m n = n := Nat.max_eq_right hmn
    simp [attach, grown, Span.join, h1, h2]

/-- Children in a row stretch a group up to the end of the last. -/
theorem Token.foldl_attach (t : Token K) {children : List Child} {ids : List Nat} {a m b : Nat}
    (h : Abut m children b) (ham : a ≤ m) (hids : ids = [] → a = m) :
    children.foldl (fun t c => t.attach c.id c.span c.emptyLiteral) (t.grown ids a m) =
      t.grown (ids ++ kept children) a b := by
  induction h generalizing ids with
  | nil m => simp [kept]
  | @cons m n b c rest hspan hmn he _ ih =>
    rw [List.foldl_cons]
    cases hc : c.emptyLiteral with
    | false =>
      have hstep := t.attach_grown hspan ham hmn hids hc
      rw [hc] at hstep
      rw [hstep, ih (Nat.le_trans ham hmn) (by simp)]
      simp [kept, hc]
    | true =>
      -- an empty literal is left out, and the next child starts where it did
      obtain rfl := he hc
      have hstep : (t.grown ids a n).attach c.id c.span true = t.grown ids a n := rfl
      rw [hstep, ih ham hids]
      simp [kept, hc]

/-- **A group covers its children.** It keeps those that are not empty literals. -/
theorem Course.token_group (kind : K) (parent : Option Nat) {stream : Span} {children : List Child}
    {b : Nat} (h : Abut stream.start children b) :
    (Course.group kind parent stream children).token =
      (Token.group kind stream parent).grown (kept children) stream.start b := by
  have h0 : Token.group kind stream parent =
      (Token.group kind stream parent).grown [] stream.start stream.start := rfl
  rw [Course.token, h0, Token.foldl_attach _ h (Nat.le_refl _) (fun _ => rfl)]
  rfl

theorem Segment.bytes_of_isEmptyLiteral {s : Segment K} (h : s.isEmptyLiteral = true) : s.bytes = 0 := by
  cases s with
  | literal plain swallowed =>
    obtain rfl := List.isEmpty_iff.1 h
    rfl
  | tag _ _ _ => cases h
  | nest _ _ _ _ _ => cases h

theorem Site.abut_child (site : Site K) {rest : List Child} {b : Nat}
    (h : Abut (site.start + site.segment.bytes) rest b) : Abut site.start (site.child :: rest) b := by
  refine .cons rfl (Nat.le_add_right _ _) ?_ h
  intro he
  rw [Segment.bytes_of_isEmptyLiteral he, Nat.add_zero]

theorem Site.abut_row (parent : Option Nat) (start next : Nat) (segments : List (Segment K)) :
    Abut start ((row parent start next segments).map child) (start + Segment.bytes.total segments) := by
  induction segments generalizing start next with
  | nil => exact .nil start
  | cons s rest ih =>
    have hr := ih (start + s.bytes) (next + s.count)
    rw [Nat.add_assoc] at hr
    exact abut_child ⟨s, parent, start, next, next + 1⟩ hr

/-- The seed and the parts of a tag stand in a row, from its open delimiter on. -/
theorem Site.abut_nest (t : Tag K) (seed closing : Text) (first : Segment K)
    (siblings : List (Segment K)) (parent : Option Nat) (start id next : Nat) :
    Abut (start + Text.bytes t.opening)
      (⟨next + 1, spanAt (start + Text.bytes t.opening) seed, seed.isEmpty⟩ ::
        (parts ⟨.nest t seed first siblings closing, parent, start, id, next⟩).map child)
      (start + Text.bytes t.opening + Text.bytes (seed ++ first.text ++ Segment.texts siblings)) := by
  refine .cons rfl (Nat.le_add_right _ _) ?_ ?_
  · intro he
    rw [List.isEmpty_iff.1 he]
    rfl
  · have hrow := Site.abut_row (some id) (start + Text.bytes t.opening + Text.bytes seed + first.bytes)
      (next + 2 + first.count) siblings
    have hparts := Site.abut_child
      ⟨first, some id, start + Text.bytes t.opening + Text.bytes seed, next, next + 3⟩ hrow
    simpa [parts, Segment.bytes_text, Segment.bytes_texts, Nat.add_assoc] using hparts

theorem Outline.abut_sites (o : Outline K) : Abut 0 (o.sites.map Site.child) (Text.bytes o.text) := by
  cases o with
  | single s =>
    have h := Site.abut_row none 0 0 [s]
    rwa [Nat.zero_add, ← Segment.bytes_texts] at h
  | series first second more =>
    have h1 := Site.abut_row none 0 0 [first, second]
    have h2 := Site.abut_row none (first.bytes + second.bytes) (first.count + second.count + 1) more
    rw [Outline.sites, List.map_append]
    refine .append (m := first.bytes + second.bytes) ?_ ?_
    · simpa [Segment.bytes.total] using h1
    · simpa [Outline.text, Outline.segments, Segment.bytes_text, Segment.bytes_texts, Nat.add_assoc]
        using h2

/-! ## Cuts -/

/-- A closed token is cut out of the source at a position: its open delimiter,
its content and its close delimiter, in this order. -/
structure Token.Cut (source : Text) (token : Token K) (start : Nat) (x y z : Text) : Prop where
  state : token.state = .closed
  opening : token.opening = some (spanAt start x)
  content : token.content = some (spanAt (start + Text.bytes x) y)
  closing : token.closing = some (spanAt (start + Text.bytes x + Text.bytes y) z)
  covers : (spanAt start (x ++ y ++ z)).Covers source (x ++ y ++ z)

namespace Token.Cut

variable {source x y z : Text} {token : Token K} {start : Nat}

theorem span_eq (h : token.Cut source start x y z) : token.span = some (spanAt start (x ++ y ++ z)) := by
  simp [Token.span, h.opening, h.closing, h.state, spanAt, Nat.add_assoc]

end Token.Cut

namespace TokenTree

variable {t : TokenTree K} {token : Token K} {x y z : Text} {start : Nat}

theorem text_of_cut (h : token.Cut t.source start x y z) : t.text token = x ++ y ++ z := by
  rw [text, h.span_eq]
  exact h.covers.slice_eq

theorem rebuilt_of_cut (h : token.Cut t.source start x y z) : t.rebuilt token = x ++ y ++ z := by
  have hc := h.covers
  rw [List.append_assoc] at hc
  obtain ⟨hx, hyz⟩ := Span.Covers.split start hc
  obtain ⟨hy, hz⟩ := Span.Covers.split _ hyz
  rw [rebuilt, h.opening, h.content, h.closing]
  simp only [slice]
  rw [hx.slice_eq, hy.slice_eq, hz.slice_eq]

end TokenTree

namespace Outline

variable {l : Layout K} {o : Outline K}

/-- The token of a site is cut out of the source where the site is. -/
theorem Sited.cut {site : Site K} (h : o.Sited site) :
    ∃ x y z, (site.own l).token.Cut o.text site.start x y z ∧ x ++ y ++ z = site.segment.text := by
  have hc := h.covers
  obtain ⟨segment, parent, start, id, next⟩ := site
  cases segment with
  | literal plain swallowed =>
    refine ⟨[], plain, [], ⟨rfl, rfl, rfl, rfl, ?_⟩, by simp⟩
    simpa using hc
  | tag tag content closing =>
    refine ⟨tag.opening, content, closing, ⟨rfl, rfl, rfl, rfl, ?_⟩, by simp⟩
    rwa [Segment.text_tag] at hc
  | nest tag seed first siblings closing =>
    have hlen : Text.bytes (seed ++ first.text ++ Segment.texts siblings) =
        Text.bytes seed + first.bytes + Segment.bytes.total siblings := by
      simp [Segment.bytes_text, Segment.bytes_texts, Nat.add_assoc]
    refine ⟨tag.opening, seed ++ first.text ++ Segment.texts siblings, closing,
      ⟨rfl, rfl, ?_, ?_, ?_⟩, by simp⟩
    · rw [spanAt, hlen]; rfl
    · rw [hlen]; rfl
    · rwa [Segment.text_nest] at hc

/-- The seed of a tag is cut out after its open delimiter, and its parts after
the seed. -/
theorem Sited.covers_nest {t : Tag K} {seed closing : Text} {first : Segment K}
    {siblings : List (Segment K)} {parent : Option Nat} {start id next : Nat}
    (h : o.Sited ⟨.nest t seed first siblings closing, parent, start, id, next⟩) :
    (spanAt (start + Text.bytes t.opening) (seed ++ first.text ++ Segment.texts siblings)).Covers
      o.text (seed ++ first.text ++ Segment.texts siblings) := by
  have hc := h.covers
  simp only [Segment.text_nest] at hc
  rw [List.append_assoc] at hc
  have hs := (Span.Covers.split start hc).2
  exact (Span.Covers.split _ hs).1

/-- **Every token of an outline is cut out of its text.** -/
theorem Stands.cut {i : Nat} {c : Course K} (h : o.Stands l i c) :
    ∃ start x y z, c.token.Cut o.text start x y z := by
  cases h with
  | own hs =>
    obtain ⟨x, y, z, hc, -⟩ := hs.cut (l := l)
    exact ⟨_, x, y, z, hc⟩
  | seed hs =>
    have hc := hs.covers_nest
    rw [List.append_assoc] at hc
    have hseed := (Span.Covers.split _ hc).1
    exact ⟨_, [], _, [], ⟨rfl, rfl, rfl, rfl, by simpa [spanAt] using hseed⟩⟩
  | @group tag seed closing first siblings parent start id next hs =>
    have hab := Site.abut_nest tag seed closing first siblings parent start id next
    rw [Course.token_group l.groupKind (some id) hab]
    exact ⟨_, [], _, [], ⟨rfl, rfl, rfl, rfl, by simpa using hs.covers_nest⟩⟩
  | root ho =>
    rw [Course.token_group l.groupKind none o.abut_sites]
    refine ⟨0, [], o.text, [], ⟨rfl, rfl, ?_, ?_, ?_⟩⟩
    · simp [Token.grown, spanAt]
    · simp [Token.grown, spanAt, Span.empty]
    · exact ⟨[], [], by simp, by simp⟩

end Outline

/-! ## Seamless tokens -/

/-- A token is closed, its three parts are next to each other, and both its text
and its parts are the slice of the source that it spans. -/
structure TokenTree.Seamless (t : TokenTree K) (token : Token K) : Prop where
  closed : token.state = .closed
  spans : ∃ opening content closing, token.opening = some opening ∧ token.content = some content ∧
    token.closing = some closing ∧ opening.stop = content.start ∧ content.stop = closing.start ∧
    token.span = some ⟨opening.start, closing.stop⟩
  text_eq : ∀ span, token.span = some span → t.text token = span.slice t.source
  rebuilt_eq : t.rebuilt token = t.text token

theorem TokenTree.seamless_of_cut {t : TokenTree K} {token : Token K} {start : Nat} {x y z : Text}
    (h : token.Cut t.source start x y z) : t.Seamless token := by
  refine ⟨h.state, ⟨_, _, _, h.opening, h.content, h.closing, rfl, rfl, ?_⟩, ?_, ?_⟩
  · rw [h.span_eq]
    simp [spanAt, Nat.add_assoc]
  · intro span hspan
    rw [text, hspan]
    rfl
  · rw [rebuilt_of_cut h, text_of_cut h]

namespace TokenTree

variable {rules : Ruleset K} {t : TokenTree K} {o : Outline K}

theorem Drawn.text_eq (h : t.Drawn rules o) : o.text = t.source := h.read.text_eq

theorem Drawn.cut (h : t.Drawn rules o) {i : Nat} {token : Token K} (hi : t.tokens[i]? = some token) :
    ∃ start x y z, token.Cut t.source start x y z := by
  obtain ⟨c, hc, rfl⟩ := h.token_stands hi
  rw [← h.text_eq]
  exact hc.cut

theorem Drawn.rootToken_eq (h : t.Drawn rules o) {c : Course K}
    (hc : o.Stands (layout rules t.source) o.root c) : t.rootToken = c.token := by
  have hroot : t.tokens[t.root]? = some t.rootToken := Array.getElem?_eq_getElem t.root_lt
  rw [h.root, h.getElem?_eq hc] at hroot
  exact (Option.some.inj hroot).symm

/-- The root of a tree covers the whole source. -/
theorem Drawn.text_root (h : t.Drawn rules o) : t.text t.rootToken = t.source := by
  cases o with
  | single s =>
    have hs : (Outline.single s).Sited ⟨s, none, 0, 0, 1⟩ := .top List.mem_cons_self
    obtain ⟨x, y, z, hc, hxyz⟩ := hs.cut (l := layout rules t.source)
    rw [h.text_eq] at hc
    rw [h.rootToken_eq (.own hs), text_of_cut hc, hxyz, ← h.text_eq]
    simp [Outline.text, Outline.segments]
  | series first second more =>
    rw [h.rootToken_eq (.root rfl), Course.token_group _ none (Outline.abut_sites _), h.text_eq]
    have hc : Span.Covers t.source (spanAt 0 t.source) t.source := ⟨[], [], by simp, by simp⟩
    have := hc.slice_eq
    rwa [spanAt, Nat.zero_add] at this

end TokenTree

section

variable [DecidableEq K] [Taxonomy K] {rules : Ruleset K} {limits : Limits} {source : Text}
  {t : TokenTree K}

/-- **A scan covers its source without gaps.** The root has the source as its
text, and every token is closed and seamless. -/
theorem scan_seamless (h : TokenTree.scan rules limits source = .ok t) :
    t.source = source ∧ t.text t.rootToken = source ∧ ∀ token ∈ t.tokens, t.Seamless token := by
  obtain ⟨hsource, o, hdrawn⟩ := TokenTree.scan_drawn h
  refine ⟨hsource, hsource ▸ hdrawn.text_root, ?_⟩
  intro token hmem
  obtain ⟨i, hi⟩ := Array.getElem?_of_mem hmem
  obtain ⟨start, x, y, z, hcut⟩ := hdrawn.cut hi
  exact TokenTree.seamless_of_cut hcut

end

theorem scan_seamless_sample : ∃ t, TokenTree.scan Template.rules .default Template.sample = .ok t ∧
    t.source = Template.sample ∧ t.text t.rootToken = Template.sample ∧
      ∀ token ∈ t.tokens, t.Seamless token := by
  obtain ⟨t, ht, -⟩ := Template.scan_sample
  exact ⟨t, ht, scan_seamless ht⟩

end Bracketry
