import Bracketry.Proofs.Budget
import Bracketry.Proofs.Unambiguous

/-!
# The order of the rules

The order of its rules matters to a ruleset only where two of them open the same text. If no
text is opened by two rules, a ruleset whose rules stand in another order scans every source the
same way and under every bounds: only the numbers of the rules are others.

* `Ruleset.Reorders.opening?_eq`: the same rule opens a text, under its new number.
* `Scanner.outline_reordered`: **the same segments are read,** or the same error is met.
* `scan_reordered`: **a scan is the same up to the numbers of the rules.**
-/

namespace Bracketry

variable {K : Type}

/-! ## Rulesets in another order -/

/-- No text is opened by two rules. A rule that reports no length, or none of at least one byte,
opens nothing. -/
def Ruleset.Exclusive (s : Ruleset K) : Prop :=
  ∀ (text : Text) (i j : Nat) (r r' : Rule K) (n m : Nat), s.rules[i]? = some r →
    s.rules[j]? = some r' → r.opens text = some (n + 1) → r'.opens text = some (m + 1) → i = j

/-- The rules of a ruleset stand in another one, each under a new number. -/
structure Ruleset.Reorders (s s' : Ruleset K) (move : Equiv.Perm Nat) : Prop where
  literalKind : s'.literalKind = s.literalKind
  groupKind : s'.groupKind = s.groupKind
  rules : ∀ i, s'.rules[move i]? = s.rules[i]?

/-- Moves every number but the first as `move` does the number before it. -/
def shifted (move : Equiv.Perm Nat) : Equiv.Perm Nat where
  toFun
    | 0 => 0
    | i + 1 => move i + 1
  invFun
    | 0 => 0
    | i + 1 => move.symm i + 1
  left_inv i := by cases i <;> simp
  right_inv i := by cases i <;> simp

/-- A list in another order has its entries under new numbers. -/
theorem exists_move {α : Type} {l l' : List α} (h : l.Perm l') :
    ∃ move : Equiv.Perm Nat, ∀ i, l'[move i]? = l[i]? := by
  induction h with
  | nil => exact ⟨Equiv.refl Nat, fun _ => rfl⟩
  | cons a _ ih =>
    obtain ⟨move, hmove⟩ := ih
    refine ⟨shifted move, ?_⟩
    intro i
    cases i with
    | zero => rfl
    | succ i => exact hmove i
  | swap a b l =>
    refine ⟨Equiv.swap 0 1, ?_⟩
    intro i
    match i with
    | 0 => rfl
    | 1 => rfl
    | i + 2 => rw [Equiv.swap_apply_of_ne_of_ne (by omega) (by omega)]; rfl
  | trans _ _ ih ih' =>
    obtain ⟨move, hmove⟩ := ih
    obtain ⟨move', hmove'⟩ := ih'
    refine ⟨move.trans move', ?_⟩
    intro i
    exact (hmove' (move i)).trans (hmove i)

/-- An opening, with the rule under a new number. -/
def Opening.renumber (move : Nat → Nat) (o : Opening K) : Opening K := { o with index := move o.index }

theorem Opening.eq_of_eq {o o' : Opening K} (hindex : o.index = o'.index) (hrule : o.rule = o'.rule)
    (hlength : o.length = o'.length) : o = o' := by
  obtain ⟨index, rule, length, positive⟩ := o
  dsimp only at hindex hrule hlength
  subst hindex hrule hlength
  rfl

/-- What stops plain content, with the rule under a new number. -/
def ContentStop.renumber (move : Nat → Nat) : ContentStop K → ContentStop K
  | .opens content opening rest => .opens content (opening.renumber move) rest
  | stop => stop

/-- A tag, with the rule under a new number. -/
def Tag.renumber (move : Nat → Nat) (t : Tag K) : Tag K := { t with index := move t.index }

theorem Opening.opens_text {s : Ruleset K} {text : Text} {o : Opening K}
    (h : s.opening? text = some o) : o.rule.opens text = some (o.length - 1 + 1) := by
  obtain ⟨_, _, -, -, hopens, -⟩ := Ruleset.opening?_eq_some h
  have := o.positive
  rw [hopens, Nat.sub_add_cancel this]

namespace Ruleset.Reorders

variable {s s' : Ruleset K} {move : Equiv.Perm Nat}

/-- **The same rule opens a text,** under its new number. -/
theorem opening?_eq (h : s.Reorders s' move) (hex : s.Exclusive) (text : Text) :
    s'.opening? text = (s.opening? text).map (Opening.renumber move) := by
  cases ho : s.opening? text with
  | none =>
    rw [opening?_eq_none_iff] at ho
    refine opening?_eq_none_iff.2 ?_
    intro r hr
    obtain ⟨j, hj⟩ := List.mem_iff_getElem?.1 hr
    obtain ⟨i, rfl⟩ := move.surjective j
    rw [h.rules] at hj
    exact ho r (List.mem_of_getElem? hj)
  | some o =>
    have hrule : s'.rules[move o.index]? = some o.rule := by
      rw [h.rules]
      exact getElem?_index ho
    cases ho' : s'.opening? text with
    | none =>
      have hnone := opening?_eq_none_iff.1 ho' o.rule (List.mem_of_getElem? hrule) (o.length - 1)
      exact absurd (Opening.opens_text ho) hnone
    | some o' =>
      -- both rules open the text, so they are the same one
      obtain ⟨i, hi⟩ := move.surjective o'.index
      have hrule' : s.rules[i]? = some o'.rule := by
        rw [← h.rules, hi]
        exact getElem?_index ho'
      obtain rfl : o.index = i := hex text _ _ _ _ _ _ (getElem?_index ho) hrule'
        (Opening.opens_text ho) (Opening.opens_text ho')
      have hsame : o'.rule = o.rule := by
        rw [getElem?_index ho] at hrule'
        exact (Option.some.inj hrule').symm
      have hlength : o'.length = o.length := by
        obtain ⟨_, _, -, -, hopens, -⟩ := opening?_eq_some ho
        obtain ⟨_, _, -, -, hopens', -⟩ := opening?_eq_some ho'
        rw [hsame, hopens] at hopens'
        exact (Option.some.inj hopens').symm
      exact congrArg some (Opening.eq_of_eq hi.symm hsame hlength)

/-- Plain content stops at the same place. -/
theorem contentStop_eq (h : s.Reorders s' move) (hex : s.Exclusive) (closes : Text → Option Nat)
    (text : Text) :
    s'.contentStop closes text = (s.contentStop closes text).renumber move := by
  induction text with
  | nil =>
    unfold contentStop
    rw [h.opening?_eq hex]
    cases closes [] with
    | some n => rfl
    | none => cases s.opening? [] <;> rfl
  | cons c rest ih =>
    unfold contentStop
    rw [h.opening?_eq hex]
    cases closes (c :: rest) with
    | some n => rfl
    | none =>
      cases s.opening? (c :: rest) with
      | some o => rfl
      | none =>
        show (s'.contentStop closes rest).cons c = ((s.contentStop closes rest).cons c).renumber move
        rw [ih]
        cases s.contentStop closes rest <;> rfl

/-- A literal stops at the same place. -/
theorem literalStop_eq (h : s.Reorders s' move) (hex : s.Exclusive) (closes : Text → Option Nat)
    (text : Text) : s'.literalStop closes text = s.literalStop closes text := by
  induction text with
  | nil =>
    unfold literalStop
    rfl
  | cons c rest ih =>
    unfold literalStop
    dsimp only
    rw [h.opening?_eq hex, ih, Option.isSome_map]

theorem stop_eq (h : s.Reorders s' move) (hex : s.Exclusive) (o : Opening K) (text : Text) :
    (o.renumber move).stop s' text = (o.stop s text).renumber move :=
  h.contentStop_eq hex _ _

end Ruleset.Reorders

/-! ## Segments -/

namespace Segment

/-- A segment, with the rules under new numbers. -/
def renumber (move : Nat → Nat) : Segment K → Segment K
  | .literal plain swallowed => .literal plain swallowed
  | .tag t content closing => .tag (t.renumber move) content closing
  | .nest t seed first siblings closing =>
    .nest (t.renumber move) seed (first.renumber move) (row move siblings) closing
where
  /-- Segments in a row, with the rules under new numbers. -/
  row (move : Nat → Nat) : List (Segment K) → List (Segment K)
    | [] => []
    | s :: rest => s.renumber move :: row move rest

variable (move : Nat → Nat)

theorem swallowed_renumber (s : Segment K) : (s.renumber move).swallowed = s.swallowed := by
  cases s <;> simp only [renumber, swallowed]

theorem isEmptyLiteral_renumber (s : Segment K) :
    (s.renumber move).isEmptyLiteral = s.isEmptyLiteral := by
  cases s <;> simp only [renumber, isEmptyLiteral]

mutual

theorem textThen_renumber (more : Text) (s : Segment K) :
    (s.renumber move).textThen more = s.textThen more := by
  cases s with
  | literal plain swallowed => rfl
  | tag t content closing => rfl
  | nest t seed first siblings closing =>
    simp only [renumber, textThen]
    rw [textsThen_renumber _ siblings, textThen_renumber _ first]
    rfl

theorem textsThen_renumber (more : Text) (segments : List (Segment K)) :
    textThen.textsThen more (renumber.row move segments) = textThen.textsThen more segments := by
  cases segments with
  | nil => rfl
  | cons s rest =>
    simp only [renumber.row, textThen.textsThen]
    rw [textsThen_renumber _ rest, textThen_renumber _ s]

end

mutual

theorem count_renumber (s : Segment K) : (s.renumber move).count = s.count := by
  cases s with
  | literal plain swallowed => rfl
  | tag t content closing => rfl
  | nest t seed first siblings closing =>
    simp only [renumber, count]
    rw [count_renumber first, counts_renumber siblings]

theorem counts_renumber (segments : List (Segment K)) :
    count.counts (renumber.row move segments) = count.counts segments := by
  cases segments with
  | nil => rfl
  | cons s rest =>
    simp only [renumber.row, count.counts]
    rw [count_renumber s, counts_renumber rest]

end

theorem texts_renumber (segments : List (Segment K)) :
    texts (renumber.row move segments) = texts segments := textsThen_renumber move [] segments

theorem bytes_renumber (s : Segment K) : (s.renumber move).bytes = s.bytes := by
  rw [← bytes_text, ← bytes_text, text, textThen_renumber, ← text]

theorem total_renumber (segments : List (Segment K)) :
    bytes.total (renumber.row move segments) = bytes.total segments := by
  rw [← bytes_texts, ← bytes_texts, texts_renumber]

theorem asChildren_renumber (start next : Nat) (segments : List (Segment K)) :
    asChildren start next (renumber.row move segments) = asChildren start next segments := by
  induction segments generalizing start next with
  | nil => rfl
  | cons s rest ih =>
    simp only [renumber.row, asChildren]
    rw [bytes_renumber, count_renumber, isEmptyLiteral_renumber, ih]

end Segment

/-- A segment that was read and what is left, with the rules under new numbers. -/
def Scanned.renumber (move : Nat → Nat) (r : Scanned K) : Scanned K :=
  { r with segment := r.segment.renumber move }

/-- A level that was read, with the rules under new numbers. -/
def ScannedLevel.renumber (move : Nat → Nat) (level : ScannedLevel K) : ScannedLevel K :=
  { level with segments := Segment.renumber.row move level.segments }

/-- The segments of a source, with the rules under new numbers. -/
def Outline.renumber (move : Nat → Nat) : Outline K → Outline K
  | .single s => .single (s.renumber move)
  | .series first second more =>
    .series (first.renumber move) (second.renumber move) (Segment.renumber.row move more)

/-! ## Scanning -/

/-- Two runs that go on alike from what they found alike. -/
theorem bind_map_eq {ε α β α' β' : Type} {run : Except ε α} {run' : Except ε α'} {next : α → Except ε β}
    {next' : α' → Except ε β'} {f : α → α'} {g : β → β'} (hrun : run' = run.map f)
    (hnext : ∀ a, run = .ok a → next' (f a) = (next a).map g) :
    (run' >>= next') = (run >>= next).map g := by
  subst hrun
  cases run with
  | error e => rfl
  | ok a => exact hnext a rfl

/-- One run, after which two go on alike. -/
theorem bind_map_same {ε α β β' : Type} {run : Except ε α} {next : α → Except ε β}
    {next' : α → Except ε β'} {g : β → β'}
    (hnext : ∀ a, run = .ok a → next' a = (next a).map g) :
    (run >>= next') = (run >>= next).map g := by
  cases run with
  | error e => rfl
  | ok a => exact hnext a rfl

namespace Scanner

variable [DecidableEq K] [Taxonomy K] {rules rules' : Ruleset K} {l : Limits} {source : Text}
  {move : Equiv.Perm Nat}

theorem around_reordered (rules rules' : Ruleset K) (l : Limits) (source : Text) (t : Tag K)
    (text seed : Text) (first : Segment K) (level : ScannedLevel K) :
    (Scanner.mk rules' l source).around (t.renumber move) text seed (first.renumber move)
        (level.renumber move) =
      ((Scanner.mk rules l source).around t text seed first level).map (Scanned.renumber move) := by
  unfold around
  simp only [ScannedLevel.renumber]
  cases level.closing with
  | none => rfl
  | some closing =>
    simp only [Except.map, Scanned.renumber, Segment.renumber]

mutual

theorem tagAt_reordered (h : rules.Reorders rules' move) (hex : rules.Exclusive) (l : Limits)
    (source : Text) (g : Gauge) (n : Nat) (o : Opening K) (text : Text) :
    (Scanner.mk rules' l source).tagAt g n (o.renumber move) text =
      ((Scanner.mk rules l source).tagAt g n o text).map (Scanned.renumber move) := by
  have hstop := h.stop_eq hex o text
  cases hs : o.stop rules text with
  | closed content closing rest =>
    rw [hs] at hstop
    rw [tagAt_of_closed hstop, tagAt_of_closed (s := ⟨rules, l, source⟩) hs]
    simp only [Except.map, Scanned.renumber, Segment.renumber]
    rfl
  | missing =>
    rw [hs] at hstop
    rw [tagAt_of_missing hstop, tagAt_of_missing (s := ⟨rules, l, source⟩) hs]
    rfl
  | opens seed inner mid =>
    rw [hs] at hstop
    rw [tagAt_of_opens hstop, tagAt_of_opens (s := ⟨rules, l, source⟩) hs]
    refine bind_map_same fun _ hg => ?_
    have := Gauge.room_enter hg
    refine bind_map_same fun n1 _ => ?_
    refine bind_map_same fun n2 _ => ?_
    refine bind_map_same fun n3 _ => ?_
    refine bind_map_eq (tagAt_reordered h hex l source g.enter n3 inner mid) fun first _ => ?_
    refine bind_map_eq (levelAt_reordered h hex l source g.enter first.admitted
      (o.tag text).closes first.rest) fun level _ => ?_
    exact around_reordered rules rules' l source (o.tag text) text seed first.segment level
termination_by (l.depth - g.depth, text.length, 0)

theorem segmentAt_reordered (h : rules.Reorders rules' move) (hex : rules.Exclusive) (l : Limits)
    (source : Text) (g : Gauge) (n : Nat) (closes : Text → Option Nat) (text : Text) :
    (Scanner.mk rules' l source).segmentAt g n closes text =
      ((Scanner.mk rules l source).segmentAt g n closes text).map (Scanned.renumber move) := by
  have hopening := h.opening?_eq hex text
  cases ho : rules.opening? text with
  | some o =>
    rw [ho] at hopening
    rw [segmentAt_of_opening hopening, segmentAt_of_opening (s := ⟨rules, l, source⟩) ho]
    exact bind_map_same fun n' _ => tagAt_reordered h hex l source g n' o text
  | none =>
    rw [ho] at hopening
    have hstop := h.literalStop_eq hex closes text
    cases hl : rules.literalStop closes text with
    | swallows plain closing rest =>
      rw [hl] at hstop
      rw [segmentAt_of_literal (.swallows hopening hstop),
        segmentAt_of_literal (s := ⟨rules, l, source⟩) (.swallows ho hl)]
      refine bind_map_same fun n' _ => ?_
      simp only [Except.map, Scanned.renumber, Segment.renumber]
    | boundary plain rest =>
      rw [hl] at hstop
      rw [segmentAt_of_literal (.literal hopening hstop),
        segmentAt_of_literal (s := ⟨rules, l, source⟩) (.literal ho hl)]
      refine bind_map_same fun n' _ => ?_
      simp only [Except.map, Scanned.renumber, Segment.renumber]
termination_by (l.depth - g.depth, text.length, 1)

theorem levelAt_reordered (h : rules.Reorders rules' move) (hex : rules.Exclusive) (l : Limits)
    (source : Text) (g : Gauge) (n : Nat) (closes : Text → Option Nat) (text : Text) :
    (Scanner.mk rules' l source).levelAt g n closes text =
      ((Scanner.mk rules l source).levelAt g n closes text).map (ScannedLevel.renumber move) := by
  by_cases hne : text = []
  · subst hne
    rw [levelAt_nil, levelAt_nil]
    simp only [Except.map, ScannedLevel.renumber, Segment.renumber.row]
  · rw [levelAt_of_ne hne, levelAt_of_ne hne]
    refine bind_map_eq (segmentAt_reordered h hex l source g n closes text) fun r hr => ?_
    simp only [Scanned.renumber, Segment.swallowed_renumber]
    cases hsw : r.segment.swallowed with
    | some closing => simp only [Except.map, ScannedLevel.renumber, Segment.renumber.row]
    | none =>
      have := length_lt_of_segmentAt hr hne hsw
      refine bind_map_eq (levelAt_reordered h hex l source g r.admitted closes r.rest) fun level _ => ?_
      simp only [Except.map, ScannedLevel.renumber, ScannedLevel.cons, Segment.renumber.row]
termination_by (l.depth - g.depth, text.length, 2)

end

/-- **The same segments are read,** or the same error is met. -/
theorem outline_reordered (h : rules.Reorders rules' move) (hex : rules.Exclusive) (l : Limits)
    (source : Text) :
    (Scanner.mk rules' l source).outline =
      (Scanner.mk rules l source).outline.map (Outline.renumber move) := by
  rw [outline_eq, outline_eq]
  refine bind_map_eq (segmentAt_reordered h hex l source _ _ _ _) fun first _ => ?_
  have hsame : (first.renumber move).rest = first.rest := rfl
  by_cases hrest : first.rest = []
  · rw [if_pos (hsame.trans hrest), if_pos hrest]
    rfl
  · rw [if_neg fun hnil => hrest (hsame.symm.trans hnil), if_neg hrest]
    refine bind_map_eq (segmentAt_reordered h hex l source _ _ _ _) fun second _ => ?_
    refine bind_map_same fun n _ => ?_
    refine bind_map_eq (levelAt_reordered h hex l source _ _ _ _) fun level _ => ?_
    rfl

end Scanner


/-! ## Tokens -/

/-- A token, with the rule that opened it under a new number. -/
def Token.renumber (move : Nat → Nat) (t : Token K) : Token K :=
  match t.variant with
  | .tag rule => { t with variant := .tag (move rule) }
  | _ => t

/-- What happens to a token, with the rule that opened it under a new number. -/
def Course.renumber (move : Nat → Nat) : Course K → Course K
  | .tag kind rule parent stream opening content closing level extra =>
    .tag kind (move rule) parent stream opening content closing level extra
  | c => c

/-- A token tree, with the rules under new numbers. -/
def TokenTree.renumber (move : Nat → Nat) (t : TokenTree K) : TokenTree K where
  source := t.source
  tokens := t.tokens.map (Token.renumber move)
  root := t.root
  root_lt := by
    rw [Array.size_map]
    exact t.root_lt

theorem Token.renumber_of_isGroup (move : Nat → Nat) {t : Token K} (h : t.isGroup = true) :
    t.renumber move = t := by
  unfold isGroup at h
  unfold renumber
  cases hv : t.variant with
  | tag rule => rw [hv] at h; cases h
  | literal swallowed => rfl
  | group children => rfl

theorem Course.isGroup_group (kind : K) (parent : Option Nat) (stream : Span) (children : List Child) :
    (Course.group kind parent stream children).token.isGroup = true := by
  have hfold : ∀ t : Token K,
      (children.foldl (fun t c => t.attach c.id c.span c.emptyLiteral) t).isGroup = t.isGroup := by
    induction children with
    | nil => intro t; rfl
    | cons c rest ih => intro t; rw [List.foldl_cons, ih, Token.isGroup_attach]
  exact hfold _

theorem Course.token_renumber (move : Nat → Nat) (c : Course K) :
    (c.renumber move).token = c.token.renumber move := by
  cases c with
  | tag kind rule parent stream opening content closing level extra => rfl
  | literal kind parent stream content swallowed => rfl
  | seed kind parent stream => rfl
  | group kind parent stream children =>
    exact (Token.renumber_of_isGroup move (isGroup_group kind parent stream children)).symm

namespace Segment

variable (move : Nat → Nat) (l : Layout K)

theorem own_renumber (parent : Option Nat) (start next : Nat) (s : Segment K) :
    (s.renumber move).own l parent start next = (s.own l parent start next).renumber move := by
  cases s with
  | literal plain swallowed => rfl
  | tag t content closing => rfl
  | nest t seed first siblings closing =>
    simp only [renumber, own, Course.renumber]
    rw [bytes_renumber, total_renumber, textThen_renumber, texts_renumber]
    rfl

mutual

theorem inner_renumber (id start next : Nat) (s : Segment K) :
    (s.renumber move).inner l id start next = (s.inner l id start next).map (Course.renumber move) := by
  cases s with
  | literal plain swallowed => rfl
  | tag t content closing => rfl
  | nest t seed first siblings closing =>
    simp only [renumber, inner, List.map_cons, List.map_append]
    rw [own_renumber, bytes_renumber, count_renumber, isEmptyLiteral_renumber, asChildren_renumber,
      inner_renumber _ _ _ first, row_renumber _ _ _ siblings]
    rfl

theorem row_renumber (parent : Option Nat) (start next : Nat) (segments : List (Segment K)) :
    inner.row l parent start next (renumber.row move segments) =
      (inner.row l parent start next segments).map (Course.renumber move) := by
  cases segments with
  | nil => rfl
  | cons s rest =>
    simp only [renumber.row, inner.row, List.map_cons, List.map_append]
    rw [own_renumber, bytes_renumber, count_renumber, inner_renumber _ _ _ s, row_renumber _ _ _ rest]

end

end Segment

namespace Outline

variable (move : Nat → Nat)

theorem root_renumber (o : Outline K) : (o.renumber move).root = o.root := by
  cases o with
  | single s => rfl
  | series first second more =>
    simp only [renumber, root]
    rw [Segment.count_renumber, Segment.count_renumber]

theorem courses_renumber (l : Layout K) (o : Outline K) :
    (o.renumber move).courses l = (o.courses l).map (Course.renumber move) := by
  cases o with
  | single s => exact Segment.row_renumber move l none 0 0 [s]
  | series first second more =>
    have hroot := root_renumber move (.series first second more)
    simp only [renumber] at hroot
    have hpair := Segment.row_renumber move l none 0 0 [first, second]
    have hchildren := Segment.asChildren_renumber move 0 0 [first, second]
    simp only [Segment.renumber.row] at hpair hchildren
    simp only [renumber, courses, List.map_append, List.map_cons]
    rw [hroot, hpair, hchildren, Segment.asChildren_renumber, Segment.row_renumber,
      Segment.bytes_renumber, Segment.bytes_renumber]
    rfl

end Outline


theorem TokenTree.eq_of_eq {t t' : TokenTree K} (hsource : t.source = t'.source)
    (htokens : t.tokens = t'.tokens) (hroot : t.root = t'.root) : t = t' := by
  obtain ⟨source, tokens, root, root_lt⟩ := t
  dsimp only at hsource htokens hroot
  subst hsource htokens hroot
  rfl

/-- The tree of what was read is the same up to the numbers of the rules. -/
theorem TokenTree.ofOutline_renumber {rules rules' : Ruleset K}
    (hliteral : rules'.literalKind = rules.literalKind)
    (hgroup : rules'.groupKind = rules.groupKind) (move : Nat → Nat) (source : Text) (o : Outline K) :
    ofOutline rules' source (o.renumber move) = (ofOutline rules source o).renumber move := by
  have hlayout : layout rules' source = layout rules source := by
    unfold layout
    rw [hliteral, hgroup]
  refine eq_of_eq rfl ?_ (o.root_renumber move)
  have htoken : (Course.token ∘ Course.renumber move : Course K → Token K) =
      Token.renumber move ∘ Course.token := funext (Course.token_renumber move)
  show (((o.renumber move).courses (layout rules' source)).map Course.token).toArray =
    (((o.courses (layout rules source)).map Course.token).toArray).map (Token.renumber move)
  rw [hlayout, o.courses_renumber, List.map_map, htoken, ← List.map_map, List.map_toArray]

/-- **The order of the rules matters only where two of them open the same text.** Two rulesets
whose rules are the same in another order, no two of which open one text, scan every source
alike under every bounds: they meet the same error, or their trees are the same up to the numbers
of the rules. -/
theorem scan_reordered [DecidableEq K] [Taxonomy K] {rules rules' : Ruleset K}
    (hliteral : rules'.literalKind = rules.literalKind) (hgroup : rules'.groupKind = rules.groupKind)
    (hperm : rules.rules.Perm rules'.rules) (hexclusive : rules.Exclusive) :
    (∃ move, rules.Reorders rules' move) ∧
    ∀ move, rules.Reorders rules' move → ∀ limits source,
      TokenTree.scan rules' limits source =
        (TokenTree.scan rules limits source).map (TokenTree.renumber move) := by
  refine ⟨?_, ?_⟩
  · obtain ⟨move, hmove⟩ := exists_move hperm
    exact ⟨move, hliteral, hgroup, hmove⟩
  · intro move h limits source
    rw [TokenTree.scan_eq, TokenTree.scan_eq]
    refine bind_map_eq (Scanner.outline_reordered h hexclusive limits source) ?_
    intro o _
    exact congrArg Except.ok (TokenTree.ofOutline_renumber hliteral hgroup move source o)

/-! ## Rulesets that open each text once -/

/-- **Tags between fixed texts open each text once** if none of their open texts is a prefix of
another. An empty one opens nothing. -/
theorem Ruleset.exclusive_ofPairs (literalKind groupKind : K) {pairs : List (Pair K)}
    (h : ∀ (i j : Nat) (p q : Pair K), pairs[i]? = some p → pairs[j]? = some q → p.opening ≠ [] →
      p.opening <+: q.opening → i = j) : (ofPairs literalKind groupKind pairs).Exclusive := by
  intro text i j r r' n m hi hj hopens hopens'
  rw [ofPairs, List.getElem?_map, Option.map_eq_some_iff] at hi hj
  obtain ⟨p, hp, rfl⟩ := hi
  obtain ⟨q, hq, rfl⟩ := hj
  obtain ⟨hpre, hne⟩ := Pair.prefix_of_opens hopens
  obtain ⟨hpre', hne'⟩ := Pair.prefix_of_opens hopens'
  rcases List.prefix_or_prefix_of_prefix hpre hpre' with hpq | hqp
  · exact h i j p q hp hq hne hpq
  · exact (h j i q p hq hp hne' hqp).symm

namespace Template

/-- The rule of a number opens with the delimiter of that number. -/
theorem opens_of_getElem? {i : Nat} {r : Rule Kind} (h : rules.rules[i]? = some r) :
    ∃ d, [Delimiter.varOpen, .filterOpen, .optionalOpen][i]? = some d ∧ r.opens = d.lengthAt? := by
  match i with
  | 0 => cases h; exact ⟨_, rfl, rfl⟩
  | 1 => cases h; exact ⟨_, rfl, rfl⟩
  | 2 => cases h; exact ⟨_, rfl, rfl⟩
  | i + 3 => cases h

/-- The template language opens each text once. -/
theorem exclusive : rules.Exclusive := by
  intro text i j r r' n m hi hj hopens hopens'
  obtain ⟨d, hd, ho⟩ := opens_of_getElem? hi
  obtain ⟨d', hd', ho'⟩ := opens_of_getElem? hj
  rw [ho] at hopens
  rw [ho'] at hopens'
  -- only one delimiter stands at the start of the text
  have hsame : d = d' := by
    by_contra hne
    rw [Delimiter.lengthAt?_eq_none hopens hne] at hopens'
    cases hopens'
  subst hsame
  have hnodup : [Delimiter.varOpen, .filterOpen, .optionalOpen].Nodup := by decide
  obtain ⟨hlt, -⟩ := List.getElem?_eq_some_iff.1 hd
  exact (List.getElem?_inj hlt hnodup).1 (hd.trans hd'.symm)

/-- The rules of the template language in the opposite order. -/
def reversed : Ruleset Kind := { rules with rules := rules.rules.reverse }

/-- The sample is scanned alike by the rules of the template language in the opposite order. -/
theorem scan_reordered_reversed :
    rules.rules.Perm reversed.rules ∧ rules.Exclusive ∧
    ∃ move t, rules.Reorders reversed move ∧ TokenTree.scan rules .default sample = .ok t ∧
      t.tokens.any (fun token => token.variant == .tag 2) = true ∧
      TokenTree.scan reversed .default sample = .ok (t.renumber move) := by
  have hperm : rules.rules.Perm reversed.rules := (List.reverse_perm rules.rules).symm
  have hliteral : reversed.literalKind = rules.literalKind := rfl
  have hgroup : reversed.groupKind = rules.groupKind := rfl
  obtain ⟨⟨move, hmove⟩, hscan⟩ := Bracketry.scan_reordered hliteral hgroup hperm exclusive
  obtain ⟨t, ht, htag⟩ : ∃ t, TokenTree.scan rules .default sample = .ok t ∧
      t.tokens.any (fun token => token.variant == .tag 2) = true := TokenTree.exists_ok_of_any (by cbv)
  refine ⟨hperm, exclusive, move, t, hmove, ht, htag, ?_⟩
  rw [hscan move hmove, ht]
  rfl

end Template

end Bracketry
