import Bracketry.Proofs.Kinship
import Bracketry.Proofs.Lexing

/-!
# Reading a tag is local

A rule sees the whole text that is left, far beyond the end of the tag that is being read. Over
a local ruleset this does not matter: a delimiter is found by itself alone, and what is found
in a longer text and lies in the shorter one is found there as well. Where a tag is read, every
delimiter that was found lies in the tag, and every other answer was that there is none.

* `Ruleset.Local`: delimiters are found by themselves alone.
* `Ruleset.local_ofPairs`: **tags between fixed texts are local.**
* `TagRead.cut`: **a tag is read in the same way when the text is cut behind it.**
* `TokenTree.Drawn.scan_alone`: **a tag of a tree is scanned alone** under the bounds of the tree.
-/

namespace Bracketry

variable {K : Type}

/-! ## Cutting texts -/

namespace Text

/-- The first bytes of a text are those of the text cut behind them. -/
theorem take_append_of_le {s : Text} (t : Text) {n : Nat} (h : n ≤ bytes s) :
    take n (s ++ t) = take n s := by
  induction s generalizing n with
  | nil =>
    obtain rfl : n = 0 := Nat.le_zero.1 h
    simp
  | cons c r ih =>
    cases n with
    | zero => simp
    | succ n =>
      rw [bytes_cons] at h
      rw [List.cons_append, take, take, ih (by omega)]

theorem drop_append_of_le {s : Text} (t : Text) {n : Nat} (h : n ≤ bytes s) :
    drop n (s ++ t) = drop n s ++ t := by
  have hwhole : take n s ++ drop n (s ++ t) = take n s ++ (drop n s ++ t) := by
    rw [← take_append_of_le t h, take_append_drop, take_append_of_le t h, ← List.append_assoc,
      take_append_drop]
  exact List.append_cancel_left hwhole

/-- A cut may take more bytes than it is asked for, but not less. -/
theorem le_bytes_take {s : Text} {n : Nat} (h : n ≤ bytes s) : n ≤ bytes (take n s) := by
  induction s generalizing n with
  | nil => simpa using h
  | cons c r ih =>
    cases n with
    | zero => exact Nat.zero_le _
    | succ n =>
      rw [bytes_cons] at h
      have hr := ih (n := n + 1 - c.utf8Size) (by omega)
      rw [take, bytes_cons]
      omega

theorem after?_append (p s : Text) : after? p (p ++ s) = some s := by
  induction p with
  | nil => rfl
  | cons c p ih => rw [List.cons_append, after?, if_pos rfl, ih]

/-- A text is found at the start of exactly those texts that it is a prefix of. -/
theorem lengthAt?_eq_some_iff {p s : Text} {n : Nat} :
    lengthAt? p s = some n ↔ p <+: s ∧ n = bytes p := by
  constructor
  · exact prefix_of_lengthAt?
  · rintro ⟨⟨rest, rfl⟩, rfl⟩
    unfold lengthAt? startsWith
    rw [after?_append]
    rfl

end Text

/-! ## Local rules -/

/-- What recognises a delimiter at the start of a text recognises it by itself alone: the
delimiter lies in the text, it is found whatever follows, and found in a shorter text that
still holds it. -/
structure LocalProbe (probe : Text → Option Nat) : Prop where
  fits : ∀ {text : Text} {n : Nat}, probe text = some n → n ≤ Text.bytes text
  extend : ∀ {text : Text} {n : Nat} (more : Text), probe text = some n →
    probe (text ++ more) = some n
  cut : ∀ {text more : Text} {n : Nat}, probe (text ++ more) = some n → n ≤ Text.bytes text →
    probe text = some n

/-- Where nothing is found, nothing is found in a shorter text. -/
theorem LocalProbe.eq_none {probe : Text → Option Nat} (h : LocalProbe probe) {text more : Text}
    (hnone : probe (text ++ more) = none) : probe text = none := by
  rw [Option.eq_none_iff_forall_ne_some] at hnone ⊢
  intro n hn
  exact hnone n (h.extend more hn)

/-- Every delimiter of a ruleset is recognised by itself alone, and no close delimiter is
empty. -/
structure Ruleset.Local (rules : Ruleset K) : Prop where
  opens : ∀ r ∈ rules.rules, LocalProbe r.opens
  closes : ∀ r ∈ rules.rules, ∀ opening, LocalProbe (r.closes opening)
  closes_pos : ∀ r ∈ rules.rules, ∀ opening text, r.closes opening text ≠ some 0

theorem LocalProbe.lengthAt? (p : Text) : LocalProbe (Text.lengthAt? p) := by
  refine ⟨?_, ?_, ?_⟩
  · intro text n h
    obtain ⟨⟨rest, rfl⟩, rfl⟩ := Text.lengthAt?_eq_some_iff.1 h
    rw [Text.bytes_append]
    omega
  · intro text n more h
    obtain ⟨hpre, hn⟩ := Text.lengthAt?_eq_some_iff.1 h
    exact Text.lengthAt?_eq_some_iff.2 ⟨hpre.trans (List.prefix_append text more), hn⟩
  · intro text more n h hle
    obtain ⟨hpre, rfl⟩ := Text.lengthAt?_eq_some_iff.1 h
    refine Text.lengthAt?_eq_some_iff.2 ⟨?_, rfl⟩
    rcases List.prefix_or_prefix_of_prefix hpre (List.prefix_append text more) with hp | hp
    · exact hp
    · -- the text is no longer than the delimiter, so it is the delimiter
      obtain ⟨rest, rfl⟩ := hp
      rw [Text.bytes_append] at hle
      have hrest : rest = [] := by
        by_contra hne
        have hpos := Text.bytes_pos hne
        omega
      rw [hrest, List.append_nil]

/-- What recognises nothing is local. -/
theorem LocalProbe.none : LocalProbe fun _ => none := by
  constructor
  · intro text n h
    cases h
  · intro text n more h
    cases h
  · intro text more n h
    cases h

/-- **Tags between fixed texts are local.** -/
theorem Ruleset.local_ofPairs (literalKind groupKind : K) (pairs : List (Pair K)) :
    (ofPairs literalKind groupKind pairs).Local := by
  refine ⟨?_, ?_, ?_⟩
  · intro r hr
    obtain ⟨p, -, rfl⟩ := List.mem_map.1 hr
    exact .lengthAt? p.opening
  · intro r hr opening
    obtain ⟨p, -, rfl⟩ := List.mem_map.1 hr
    by_cases hnil : p.closing = []
    · simp only [Rule.pair, hnil, if_true]
      exact .none
    · simp only [Rule.pair, hnil, if_false]
      exact .lengthAt? p.closing
  · intro r hr opening text h
    obtain ⟨p, -, rfl⟩ := List.mem_map.1 hr
    by_cases hnil : p.closing = []
    · simp [Rule.pair, hnil] at h
    · simp only [Rule.pair, hnil, if_false] at h
      have hpos := Text.bytes_pos hnil
      have hlength := (Text.lengthAt?_eq_some_iff.1 h).2
      omega

variable {rules : Ruleset K} {text rest more : Text}

namespace Ruleset

theorem firstOpening_cut {some_rules : List (Rule K)} (hl : ∀ r ∈ some_rules, LocalProbe r.opens)
    {i : Nat} {o : Opening K} (h : firstOpening (text ++ more) i some_rules = some o)
    (hle : o.length ≤ Text.bytes text) : firstOpening text i some_rules = some o := by
  induction some_rules generalizing i with
  | nil => cases h
  | cons r rs ih =>
    obtain ⟨hr, hrs⟩ := List.forall_mem_cons.1 hl
    unfold firstOpening at h ⊢
    split at h
    · next n hn =>
      obtain rfl := Option.some.inj h
      rw [hr.cut hn hle]
    · next hn =>
      -- a rule that opens nothing does not open the shorter text either
      split
      · next n hshort => exact absurd (hr.extend more hshort) (hn n)
      · exact ih hrs h

variable (hl : rules.Local) {o : Opening K}

include hl

namespace Local

theorem opening_fits (h : rules.opening? text = some o) : o.length ≤ Text.bytes text := by
  obtain ⟨_, _, -, -, hopens, -⟩ := opening?_eq_some h
  exact (hl.opens _ (rule_mem h)).fits hopens

/-- The tag that opens a text opens a shorter text that still holds its open delimiter. -/
theorem opening_cut (h : rules.opening? (text ++ more) = some o) (hle : o.length ≤ Text.bytes text) :
    rules.opening? text = some o :=
  firstOpening_cut hl.opens h hle

/-- Where no tag opens, none opens a shorter text. -/
theorem opening_eq_none (h : rules.opening? (text ++ more) = none) : rules.opening? text = none := by
  rw [opening?_eq_none_iff] at h ⊢
  intro r hr n hn
  exact h r hr n ((hl.opens r hr).extend more hn)

end Local

end Ruleset

/-! ## Where plain text stops -/

variable {closes : Text → Option Nat}

theorem Plain.tail {c : Char} {plain : Text} (h : Plain rules closes (c :: plain) rest) :
    Plain rules closes plain rest := by
  intro before d after heq
  exact h (c :: before) d after (by rw [heq, List.cons_append])

/-- Behind plain text the content of a tag stops where it would stop without it. -/
theorem Plain.contentStop_append {plain : Text} (h : Plain rules closes plain rest) :
    rules.contentStop closes (plain ++ rest) =
      plain.foldr ContentStop.cons (rules.contentStop closes rest) := by
  induction plain with
  | nil => rfl
  | cons c plain ih =>
    obtain ⟨ho, hc⟩ := h [] c plain rfl
    rw [List.cons_append] at ho hc ⊢
    rw [Ruleset.contentStop, hc, ho]
    dsimp only
    rw [ih h.tail, List.foldr_cons]

theorem foldr_cons_closed (plain content closing rest : Text) :
    plain.foldr ContentStop.cons (.closed content closing rest : ContentStop K) =
      .closed (plain ++ content) closing rest := by
  induction plain with
  | nil => rfl
  | cons c plain ih =>
    rw [List.foldr_cons, ih]
    rfl

theorem foldr_cons_opens (plain content rest : Text) (o : Opening K) :
    plain.foldr ContentStop.cons (.opens content o rest) = .opens (plain ++ content) o rest := by
  induction plain with
  | nil => rfl
  | cons c plain ih =>
    rw [List.foldr_cons, ih]
    rfl

section

variable (hl : rules.Local) (hc : LocalProbe closes)

include hl hc

/-- Plain text is plain before a shorter text. -/
theorem Plain.cut {plain : Text} (h : Plain rules closes plain (rest ++ more)) :
    Plain rules closes plain rest := by
  intro before c after heq
  obtain ⟨ho, hclose⟩ := h before c after heq
  rw [← List.append_assoc] at ho hclose
  exact ⟨hl.opening_eq_none ho, hc.eq_none hclose⟩

/-- The content of a tag stops at the same close delimiter if the text is cut behind it. -/
theorem contentStop_cut_closed {content closing : Text}
    (h : rules.contentStop closes (text ++ more) = .closed content closing (rest ++ more)) :
    rules.contentStop closes text = .closed content closing rest := by
  have hplain := contentStop_plain rules closes (text ++ more)
  rw [h] at hplain
  dsimp only at hplain
  obtain ⟨n, hn, hclosing⟩ := closes_of_closed h
  have htext : content ++ (closing ++ rest) = text := by
    have heq := Ruleset.contentStop_closed h
    rw [← List.append_assoc, List.append_left_inj, List.append_assoc] at heq
    exact heq
  have hle : n ≤ Text.bytes closing := by
    rw [hclosing]
    exact Text.le_bytes_take (hc.fits hn)
  rw [← List.append_assoc] at hn hplain
  have hshort : closes (closing ++ rest) = some n := by
    refine hc.cut hn ?_
    rw [Text.bytes_append]
    omega
  have htake : Text.take n (closing ++ rest) = closing := by
    rw [Text.take_append_of_le _ hle] at hclosing ⊢
    exact hclosing.symm
  have hdrop : Text.drop n (closing ++ rest) = rest := by
    have heq := Text.take_append_drop n (closing ++ rest)
    rw [htake] at heq
    exact List.append_cancel_left heq
  have hstop : rules.contentStop closes (closing ++ rest) = .closed [] closing rest := by
    unfold Ruleset.contentStop
    rw [hshort]
    dsimp only
    rw [htake, hdrop]
  rw [← htext, (hplain.cut hl hc).contentStop_append, hstop, foldr_cons_closed, List.append_nil]

/-- The content of a tag stops at the same tag inside if the text is cut behind its open
delimiter. -/
theorem contentStop_cut_opens {content : Text} {inner : Opening K}
    (h : rules.contentStop closes (text ++ more) = .opens content inner (rest ++ more))
    (hle : inner.length ≤ Text.bytes rest) :
    rules.contentStop closes text = .opens content inner rest := by
  have hplain := contentStop_plain rules closes (text ++ more)
  rw [h] at hplain
  dsimp only at hplain
  obtain ⟨heq, hinner⟩ := Ruleset.contentStop_opens h
  have htext : content ++ rest = text := by
    rw [← List.append_assoc, List.append_left_inj] at heq
    exact heq
  have hopen := hl.opening_cut hinner hle
  have hclose : closes rest = none := hc.eq_none (opens_stop h).2
  have hstop : rules.contentStop closes rest = .opens [] inner rest := by
    unfold Ruleset.contentStop
    rw [hclose, hopen]
  rw [← htext, (hplain.cut hl hc).contentStop_append, hstop, foldr_cons_opens, List.append_nil]

theorem literalStop_cut_swallows {plain closing : Text}
    (h : rules.literalStop closes (text ++ more) = .swallows plain closing (rest ++ more)) :
    rules.literalStop closes text = .swallows plain closing rest := by
  rw [literalStop_eq] at h ⊢
  cases hs : rules.contentStop closes (text ++ more) with
  | closed content close left =>
    rw [hs] at h
    cases h
    rw [contentStop_cut_closed hl hc hs]
  | opens content inner left =>
    rw [hs] at h
    cases h
  | missing =>
    rw [hs] at h
    cases h

/-- A literal stops at the same tag if the text is cut behind its open delimiter. -/
theorem literalStop_cut_boundary {plain : Text} {inner : Opening K}
    (h : rules.literalStop closes (text ++ more) = .boundary plain (rest ++ more))
    (hinner : rules.opening? (rest ++ more) = some inner)
    (hle : inner.length ≤ Text.bytes rest) :
    rules.literalStop closes text = .boundary plain rest := by
  rw [literalStop_eq] at h ⊢
  cases hs : rules.contentStop closes (text ++ more) with
  | closed content close left =>
    rw [hs] at h
    cases h
  | opens content inner' left =>
    rw [hs] at h
    cases h
    have hsame := (Ruleset.contentStop_opens hs).2.symm.trans hinner
    obtain rfl := Option.some.inj hsame
    rw [contentStop_cut_opens hl hc hs hle]
  | missing =>
    rw [hs] at h
    obtain ⟨-, hrest⟩ := LiteralStop.boundary.inj h
    -- a tag that opens the empty text would not lie in it
    obtain ⟨hnil, -⟩ := List.append_eq_nil_iff.1 hrest.symm
    rw [hnil] at hle
    exact absurd inner.positive (by simpa using hle)

end

/-! ## Tags -/

section

variable {full left : Text}

/-- What is left behind a tag is left where the tag begins. -/
theorem TagRead.exists_append {o : Opening K} {s : Segment K} (h : TagRead rules o full s left)
    (hleft : left = rest ++ more) : full = (s.text ++ rest) ++ more := by
  have heq := h.text_eq
  rw [hleft, ← List.append_assoc] at heq
  exact heq.symm

/-- What is left behind a level is left where the level begins. -/
theorem LevelRead.exists_append {segments : List (Segment K)} {closing : Text}
    (h : LevelRead rules closes full segments (some closing) left) (hleft : left = rest ++ more) :
    full = (Segment.texts segments ++ closing ++ rest) ++ more := by
  have heq := h.text_eq
  rw [hleft, ← List.append_assoc] at heq
  exact heq.symm

/-- The close delimiter at the end of a level is not empty. -/
theorem LevelRead.closing_ne_nil {segments : List (Segment K)} {closing : Text}
    (hc : LocalProbe closes) (hpos : ∀ text, closes text ≠ some 0)
    (h : LevelRead rules closes full segments (some closing) left) : closing ≠ [] := by
  obtain ⟨n, hn, hclosing⟩ := h.closes_closing
  have hlength := Text.le_bytes_take (hc.fits hn)
  rw [← hclosing] at hlength
  rintro rfl
  obtain rfl : n = 0 := Nat.le_zero.1 hlength
  exact hpos _ hn

variable (hl : rules.Local) {o : Opening K}

include hl

/-- A tag holds its open delimiter. -/
theorem TagRead.length_le {s : Segment K} (h : TagRead rules o full s left)
    (ho : rules.opening? full = some o) (hfull : full = text ++ more) (hleft : left = rest ++ more) :
    o.length ≤ Text.bytes text := by
  have hopening : o.length ≤ Text.bytes (o.tag full).opening :=
    Text.le_bytes_take (hl.opening_fits ho)
  have htext : s.text ++ rest = text := by
    have heq := (h.exists_append hleft).symm.trans hfull
    rwa [List.append_left_inj] at heq
  have hholds : ∃ tail, s.text = (o.tag full).opening ++ tail := by
    cases h with
    | plain _ =>
      rw [Segment.text_tag, List.append_assoc]
      exact ⟨_, rfl⟩
    | nest _ _ _ =>
      rw [Segment.text_nest, List.append_assoc]
      exact ⟨_, rfl⟩
  obtain ⟨tail, htail⟩ := hholds
  rw [← htext, htail, Text.bytes_append, Text.bytes_append]
  omega

/-- A level that begins with a tag holds the open delimiter of the tag. -/
theorem LevelRead.length_le {segments : List (Segment K)} {closing : Text}
    (h : LevelRead rules closes full segments (some closing) left)
    (ho : rules.opening? full = some o) (hfull : full = text ++ more) (hleft : left = rest ++ more) :
    o.length ≤ Text.bytes text := by
  cases h with
  | swallows _ hn _ =>
    rw [hn] at ho
    cases ho
  | literal _ hn _ _ =>
    rw [hn] at ho
    cases ho
  | tag _ ho' ht hlevel =>
    obtain rfl := Option.some.inj (ho'.symm.trans ho)
    exact ht.length_le hl ho hfull (hlevel.exists_append hleft)

end

mutual

/-- **A tag is read in the same way when the text is cut behind it.** -/
theorem TagRead.cut (hl : rules.Local) {o : Opening K} {full left text rest more : Text}
    {s : Segment K} (h : TagRead rules o full s left) (ho : rules.opening? full = some o)
    (hfull : full = text ++ more) (hleft : left = rest ++ more) : TagRead rules o text s rest := by
  have hle := h.length_le hl ho hfull hleft
  have htag : o.tag full = o.tag text := by
    rw [hfull, Opening.tag, Opening.tag, Text.take_append_of_le _ hle]
  have hdrop : Text.drop o.length full = Text.drop o.length text ++ more := by
    rw [hfull, Text.drop_append_of_le _ hle]
  have hmem := Ruleset.rule_mem ho
  have hc : LocalProbe (o.tag text).closes := hl.closes _ hmem _
  have hpos : ∀ text', (o.tag text).closes text' ≠ some 0 := hl.closes_pos _ hmem _
  cases h with
  | plain hs =>
    rw [Opening.stop, htag, hdrop, hleft] at hs
    rw [htag]
    exact .plain (contentStop_cut_closed hl hc hs)
  | nest hs hf hlevel =>
    have hinner := (Opening.text_of_opens hs).2
    rw [htag] at hlevel ⊢
    have hafter := hlevel.exists_append hleft
    have hmid := hf.exists_append hafter
    have hinner_le := hf.length_le hl hinner hmid hafter
    have hlevel' := hlevel.cut hl hc hpos hafter hleft
    have hf' := hf.cut hl hinner hmid hafter
    rw [Opening.stop, htag, hdrop, hmid] at hs
    exact .nest (contentStop_cut_opens hl hc hs hinner_le) hf' hlevel'

/-- The level of a tag is read in the same way when the text is cut behind the tag. -/
theorem LevelRead.cut (hl : rules.Local) {closes : Text → Option Nat} (hc : LocalProbe closes)
    (hpos : ∀ text, closes text ≠ some 0) {full left text rest more : Text}
    {segments : List (Segment K)} {closing : Text}
    (h : LevelRead rules closes full segments (some closing) left)
    (hfull : full = text ++ more) (hleft : left = rest ++ more) :
    LevelRead rules closes text segments (some closing) rest := by
  have hnil := h.closing_ne_nil hc hpos
  have hne : text ≠ [] := by
    rintro rfl
    have heq := (h.exists_append hleft).symm.trans hfull
    rw [List.append_left_inj] at heq
    simp [hnil] at heq
  cases h with
  | swallows _ ho hs =>
    rw [hfull] at ho hs
    rw [hleft] at hs
    exact .swallows hne (hl.opening_eq_none ho) (literalStop_cut_swallows hl hc hs)
  | literal _ ho hs hlevel =>
    have hmid := hlevel.exists_append hleft
    have hlevel' := hlevel.cut hl hc hpos hmid hleft
    -- the literal stops at a tag, because the close delimiter is still to come
    obtain hend | ⟨inner, hinner⟩ := (boundary_stop hs).2
    · rw [hend] at hmid
      simp [hnil] at hmid
    · have hle := hlevel.length_le hl hinner hmid hleft
      rw [hfull] at ho hs
      rw [hmid] at hs hinner
      exact .literal hne (hl.opening_eq_none ho) (literalStop_cut_boundary hl hc hs hinner hle) hlevel'
  | tag _ ho ht hlevel =>
    have hmid := hlevel.exists_append hleft
    have hlevel' := hlevel.cut hl hc hpos hmid hleft
    have hle := ht.length_le hl ho hfull hmid
    have ht' := ht.cut hl ho hfull hmid
    rw [hfull] at ho
    exact .tag hne (hl.opening_cut ho hle) ht' hlevel'

end

/-- **A tag is read alone** as the only segment of its text. -/
theorem SegmentRead.alone (hl : rules.Local) {s : Segment K} (h : SegmentRead rules closes text s rest)
    (hs : s.isLiteral = false) : OutlineRead rules s.text (.single s) := by
  cases h with
  | swallows _ _ => cases hs
  | literal _ _ => cases hs
  | tag ho ht =>
    have hfull : text = s.text ++ rest := ht.text_eq.symm
    have hleft : rest = [] ++ rest := rfl
    have hle := ht.length_le hl ho hfull hleft
    have hcut := ht.cut hl ho hfull hleft
    rw [hfull] at ho
    exact .single (.tag (hl.opening_cut ho hle) hcut)

/-! ## Scans of single tags -/

namespace TokenTree

/-- A tree of what is read of a source. -/
theorem drawn_ofOutline {source : Text} {o : Outline K} (h : OutlineRead rules source o) :
    (ofOutline rules source o).Drawn rules o :=
  ⟨h, rfl, rfl⟩

variable [DecidableEq K] [Taxonomy K] {limits : Limits} {source : Text} {t : TokenTree K}
  {o : Outline K}

/-- A scan that gives a tree had room for it. -/
theorem room_of_scan (h : scan rules limits source = .ok t) (ho : OutlineRead rules source o) :
    limits.Room o.nesting o.count := by
  by_contra hroom
  obtain ⟨e, -, hscan⟩ := (scan_needs ho limits).full hroom
  rw [h] at hscan
  cases hscan

/-- **A tag of a tree is scanned alone** under the bounds under which the tree was scanned. -/
theorem Drawn.scan_alone (hl : rules.Local) (h : scan rules limits t.source = .ok t)
    (hd : t.Drawn rules o) {site : Site K} (hs : o.Sited site)
    (hliteral : site.segment.isLiteral = false) :
    OutlineRead rules site.segment.text (.single site.segment) ∧
      scan rules limits site.segment.text =
        .ok (ofOutline rules site.segment.text (.single site.segment)) := by
  obtain ⟨closes, before, text, rest, -, -, hread⟩ := hs.read hd.read
  have halone := hread.alone hl hliteral
  refine ⟨halone, (scan_needs halone limits).room ?_⟩
  -- what is inside the tag is inside the source
  have hroom := room_of_scan h hd.read
  have hdepth := hd.depth_add_nesting_le hs
  have hcount := hs.count_le (layout rules t.source)
  rw [Outline.length_courses] at hcount
  have hnesting : (Outline.single site.segment).nesting = site.segment.nesting := by
    simp [Outline.nesting, Outline.segments, Segment.nesting.deepest]
  rw [hnesting]
  exact hroom.mono (by omega) hcount

end TokenTree

end Bracketry
