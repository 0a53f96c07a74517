import Bracketry.Proofs.Reading
import Bracketry.Proofs.Unambiguous
import Bracketry.Scan.Layout

/-!
# A machine that reads a source in one pass

The machine keeps a stack of open tags. At each position it **pops** the innermost
open tag if that tag closes there, else it **pushes** a tag if one opens there,
else it skips one character. It marks down what it pushes and pops.

The scan recurses over levels and hands the close delimiter of a tag to the last
literal inside it. Over an unambiguous ruleset the machine goes through the same
delimiters at the same places:

* `Machine.run_literal`: it skips plain text up to where a literal stops.
* `TagRead.run_eq`, `LevelRead.run_eq`: **it runs over what is read as a tag or as
  a level, and marks its tags.**
* `TagOpen.endsOpen`, `LevelOpen.endsOpen`: **it ends with the tag on top that the
  grammar leaves open.**
-/

namespace Bracketry

variable {K : Type}

open Segment (spanAt)

/-- A tag as the machine marks it down: the number of its rule, the open delimiter,
from the pop on the content and the close delimiter, and the number of the tag that
encloses it. -/
structure TagMark where
  rule : Nat
  opening : Option Span
  content : Option Span
  closing : Option Span
  enclosing : Option Nat
  deriving DecidableEq, Repr

/-- An open tag, where it starts, and the number of its mark. -/
structure Frame (K : Type) where
  tag : Tag K
  start : Nat
  number : Nat

/-- The mark of a tag that was pushed. -/
def TagMark.opened (f : Frame K) (enclosing : Option Nat) : TagMark :=
  ⟨f.tag.index, some (spanAt f.start f.tag.opening), none, none, enclosing⟩

/-- Marks down that a tag was popped at `pos`. -/
def TagMark.close (f : Frame K) (pos : Nat) (closing : Text) (m : TagMark) : TagMark :=
  { m with
    content := some ⟨f.start + Text.bytes f.tag.opening, pos⟩
    closing := some (spanAt pos closing) }

/-- A position, the text that is left there, the open tags, the innermost first,
and the marks in the order of the pushes. -/
structure Machine (K : Type) where
  pos : Nat
  left : Text
  stack : List (Frame K)
  marks : List TagMark

namespace Machine

/-- The machine in front of a source. -/
def start (source : Text) : Machine K := ⟨0, source, [], []⟩

/-- The length of the close delimiter of the innermost open tag at the start of a
text. -/
def closing? : List (Frame K) → Text → Option Nat
  | [] => noTag
  | f :: _ => f.tag.closes

/-- The number of the innermost open tag. -/
def enclosing (stack : List (Frame K)) : Option Nat := stack.head?.map Frame.number

/-- Pops the innermost open tag at its close delimiter, after which `rest` is left. -/
def pop (m : Machine K) (closing rest : Text) : Machine K :=
  match m.stack with
  | [] => m
  | f :: below =>
    { pos := m.pos + Text.bytes closing
      left := rest
      stack := below
      marks := m.marks.modify f.number (TagMark.close f m.pos closing) }

/-- Pushes the tag that an opening opens. -/
def push (m : Machine K) (o : Opening K) : Machine K :=
  let f : Frame K := ⟨o.tag m.left, m.pos, m.marks.length⟩
  { pos := m.pos + Text.bytes f.tag.opening
    left := Text.drop o.length m.left
    stack := f :: m.stack
    marks := m.marks ++ [TagMark.opened f (enclosing m.stack)] }

/-- One step: pop, else push, else skip a character. At the end of the text the
machine only pops. -/
def step (rules : Ruleset K) (m : Machine K) : Option (Machine K) :=
  match closing? m.stack m.left with
  | some n => some (m.pop (Text.take n m.left) (Text.drop n m.left))
  | none =>
    match m.left with
    | [] => none
    | c :: rest =>
      match rules.opening? (c :: rest) with
      | some o => some (m.push o)
      | none => some { m with pos := m.pos + c.utf8Size, left := rest }

/-- A step reads on, or it pops and does not read back. -/
theorem step_decreases {rules : Ruleset K} {m m' : Machine K} (h : m.step rules = some m') :
    m'.left.length < m.left.length ∨
      (m'.left.length ≤ m.left.length ∧ m'.stack.length < m.stack.length) := by
  unfold step at h
  split at h
  · next n hn =>
    cases h
    cases hs : m.stack with
    | nil => rw [hs] at hn; cases hn
    | cons f below =>
      have hle := Text.length_drop_le n m.left
      right
      simp only [pop, hs, List.length_cons]
      omega
  · split at h
    · cases h
    · next c rest hleft =>
      left
      split at h
      · next o ho =>
        cases h
        have hlt := Text.length_drop_lt o.positive (s := m.left) (by simp [hleft])
        simpa only [push] using hlt
      · cases h
        simp [hleft]

/-- The state in which the machine halts. -/
def run (rules : Ruleset K) (m : Machine K) : Machine K :=
  match h : m.step rules with
  | none => m
  | some m' =>
    have := step_decreases h
    run rules m'
termination_by (m.left.length, m.stack.length)
decreasing_by
  rcases this with hlt | ⟨hle, hlt⟩
  · exact Prod.Lex.left _ _ hlt
  · rcases Nat.lt_or_eq_of_le hle with hlt' | heq
    · exact Prod.Lex.left _ _ hlt'
    · rw [heq]; exact Prod.Lex.right _ hlt

variable {rules : Ruleset K}

theorem run_eq_of_step {m m' : Machine K} (h : m.step rules = some m') :
    m.run rules = m'.run rules := by
  rw [run]
  split
  · next hn => rw [hn] at h; cases h
  · next m'' hs => rw [hs] at h; cases h; rfl

theorem run_eq_self {m : Machine K} (h : m.step rules = none) : m.run rules = m := by
  rw [run]
  split
  · rfl
  · next hs => rw [hs] at h; cases h

theorem left_of_step_eq_none {m : Machine K} (h : m.step rules = none) : m.left = [] := by
  unfold step at h
  split at h
  · cases h
  · split at h
    · next hleft => exact hleft
    · split at h <;> cases h

/-- Where the machine halts nothing is left to read. -/
theorem left_run (m : Machine K) (rules : Ruleset K) : (m.run rules).left = [] := by
  -- the machine goes on as long as it can step
  fun_induction run rules m with
  | case1 m hm => exact left_of_step_eq_none hm
  | case2 m m' hm _ ih => exact ih

end Machine

/-- The marks of the tags of a segment that starts at `start`. The first of them
gets the number `number`. -/
def Segment.marks (enclosing : Option Nat) (number start : Nat) : Segment K → List TagMark
  | .literal _ _ => []
  | .tag t content closing =>
    [⟨t.index, some (spanAt start t.opening), some (spanAt (start + Text.bytes t.opening) content),
      some (spanAt (start + Text.bytes t.opening + Text.bytes content) closing), enclosing⟩]
  | .nest t seed first siblings closing =>
    let body := start + Text.bytes t.opening
    let place := body + Text.bytes seed
    let stop := body + (Text.bytes seed + first.bytes + bytes.total siblings)
    let inner := first.marks (some number) (number + 1) place
    ⟨t.index, some (spanAt start t.opening), some ⟨body, stop⟩, some (spanAt stop closing),
        enclosing⟩ ::
      (inner ++ row (some number) (number + 1 + inner.length) (place + first.bytes) siblings)
where
  /-- The marks of the tags of segments in a row. -/
  row (enclosing : Option Nat) (number start : Nat) : List (Segment K) → List TagMark
    | [] => []
    | s :: rest =>
      let own := s.marks enclosing number start
      own ++ row enclosing (number + own.length) (start + s.bytes) rest

namespace Machine

variable {rules : Ruleset K}

/-! ## Single steps -/

/-- The tags of a stack are tags of the ruleset. -/
def Known (rules : Ruleset K) (stack : List (Frame K)) : Prop :=
  ∀ f ∈ stack, f.tag.rule ∈ rules.rules

theorem Known.push {stack : List (Frame K)} (hk : Known rules stack) {text : Text} {o : Opening K}
    (ho : rules.opening? text = some o) (start number : Nat) :
    Known rules (⟨o.tag text, start, number⟩ :: stack) :=
  List.forall_mem_cons.2 ⟨Ruleset.rule_mem ho, hk⟩

/-- Where a tag opens, no open tag closes. -/
theorem closing?_eq_none (hu : rules.Unambiguous) {stack : List (Frame K)} (hk : Known rules stack)
    {text : Text} {o : Opening K} (ho : rules.opening? text = some o) :
    closing? stack text = none := by
  cases stack with
  | nil => rfl
  | cons f below =>
    exact hu.closes_eq_none (hk f List.mem_cons_self) _ ho

/-- At the end of the text no open tag closes. -/
theorem closing?_nil (hu : rules.Unambiguous) {stack : List (Frame K)} (hk : Known rules stack) :
    closing? stack [] = none := by
  cases stack with
  | nil => rfl
  | cons f below => exact hu.closes_nil _ (hk f List.mem_cons_self) _

/-- At the end of the text no tag opens. -/
theorem opening?_nil (hu : rules.Unambiguous) : rules.opening? [] = none :=
  Ruleset.opening?_eq_none_iff.2 hu.opens_nil

/-- The machine halts at the end of the text. -/
theorem run_end (hu : rules.Unambiguous) (pos : Nat) {stack : List (Frame K)}
    (hk : Known rules stack) (marks : List TagMark) :
    run rules ⟨pos, [], stack, marks⟩ = ⟨pos, [], stack, marks⟩ := by
  apply run_eq_self
  simp only [step, closing?_nil hu hk]

theorem run_push (hu : rules.Unambiguous) (pos : Nat) {text : Text} {o : Opening K}
    (ho : rules.opening? text = some o) {stack : List (Frame K)} (hk : Known rules stack)
    (marks : List TagMark) :
    run rules ⟨pos, text, stack, marks⟩ = run rules (push ⟨pos, text, stack, marks⟩ o) := by
  apply run_eq_of_step
  cases text with
  | nil => rw [opening?_nil hu] at ho; cases ho
  | cons c rest => simp only [step, closing?_eq_none hu hk ho, ho]

/-- What the machine does where a literal stops: it pops the tag whose close
delimiter the literal swallows. -/
def leave (m : Machine K) : Option Text → Machine K
  | none => m
  | some closing => m.pop closing m.left

theorem run_pop (pos : Nat) {text : Text} {n : Nat} {stack : List (Frame K)}
    (hc : closing? stack text = some n) (marks : List TagMark) :
    run rules ⟨pos, text, stack, marks⟩ =
      run rules (leave ⟨pos, Text.drop n text, stack, marks⟩ (some (Text.take n text))) := by
  apply run_eq_of_step
  cases stack with
  | nil => cases hc
  | cons f below => simp only [step, hc]; rfl

theorem run_skip (pos : Nat) {c : Char} {rest : Text} {stack : List (Frame K)}
    (hc : closing? stack (c :: rest) = none) (ho : rules.opening? (c :: rest) = none)
    (marks : List TagMark) :
    run rules ⟨pos, c :: rest, stack, marks⟩ = run rules ⟨pos + c.utf8Size, rest, stack, marks⟩ := by
  apply run_eq_of_step
  simp only [step, hc, ho]

/-- **The machine skips plain text** up to where a literal stops. -/
theorem run_literal (pos : Nat) (text : Text) (stack : List (Frame K)) (marks : List TagMark) :
    run rules ⟨pos, text, stack, marks⟩ = match rules.literalStop (closing? stack) text with
      | .swallows plain closing rest =>
        run rules (leave ⟨pos + Text.bytes plain, rest, stack, marks⟩ (some closing))
      | .boundary plain rest => run rules ⟨pos + Text.bytes plain, rest, stack, marks⟩ := by
  induction text generalizing pos with
  | nil =>
    unfold Ruleset.literalStop
    cases hc : closing? stack [] with
    | none => rfl
    | some n => exact run_pop pos hc marks
  | cons c rest ih =>
    unfold Ruleset.literalStop
    cases hc : closing? stack (c :: rest) with
    | some n => exact run_pop pos hc marks
    | none =>
      by_cases ho : (rules.opening? (c :: rest)).isSome = true
      · simp only [ho, if_true]
        rfl
      · have hnone : rules.opening? (c :: rest) = none := by simpa using ho
        rw [run_skip pos hc hnone, ih]
        simp only [hnone, Option.isSome_none, Bool.false_eq_true, if_false]
        cases rules.literalStop (closing? stack) rest <;>
          simp only [LiteralStop.cons, Text.bytes_cons, Nat.add_assoc]

end Machine

/-- A level that ends without a close delimiter ends with the text. -/
theorem LevelRead.rest_eq_nil {rules : Ruleset K} {closes : Text → Option Nat} {text rest : Text}
    {segments : List (Segment K)} (h : LevelRead rules closes text segments none rest) :
    rest = [] := by
  induction segments generalizing text with
  | nil => cases h; rfl
  | cons s segments ih =>
    cases h with
    | literal _ _ _ hl => exact ih hl
    | tag _ _ _ hl => exact ih hl

/-! ## Runs over tags and levels -/

open Machine (Known closing? enclosing run push leave run_push run_literal run_end)

variable {rules : Ruleset K}

theorem modify_length_append {α : Type} (before after : List α) (a : α) (f : α → α) :
    (before ++ a :: after).modify before.length f = before ++ f a :: after := by
  induction before with
  | nil => rfl
  | cons b before ih => rw [List.cons_append, List.length_cons, List.modify_succ_cons, ih]; rfl

/-- The pop of a tag completes its mark, and the marks after it stay. -/
theorem Machine.leave_opened (pos : Nat) (closing rest : Text) (f : Frame K)
    (below : List (Frame K)) (marks inner : List TagMark) (outer : Option Nat)
    (hn : f.number = marks.length) :
    leave ⟨pos, rest, f :: below, marks ++ TagMark.opened f outer :: inner⟩ (some closing) =
      ⟨pos + Text.bytes closing, rest, below, marks ++ ⟨f.tag.index,
        some (spanAt f.start f.tag.opening), some ⟨f.start + Text.bytes f.tag.opening, pos⟩,
        some (spanAt pos closing), outer⟩ :: inner⟩ := by
  simp only [leave, Machine.pop, hn, modify_length_append]
  rfl

/-- After a push the machine skips the plain text at the start of the content. -/
theorem Machine.run_content (pos : Nat) (text : Text) (o : Opening K) (start number : Nat)
    (below : List (Frame K)) (marks : List TagMark) :
    run rules ⟨pos, Text.drop o.length text, ⟨o.tag text, start, number⟩ :: below, marks⟩ =
      match o.stop rules text with
      | .closed content closing rest =>
        run rules (leave ⟨pos + Text.bytes content, rest, ⟨o.tag text, start, number⟩ :: below, marks⟩
          (some closing))
      | .opens seed _ mid =>
        run rules ⟨pos + Text.bytes seed, mid, ⟨o.tag text, start, number⟩ :: below, marks⟩
      | .missing => run rules ⟨pos + Text.bytes (Text.drop o.length text), [],
          ⟨o.tag text, start, number⟩ :: below, marks⟩ := by
  rw [run_literal, closing?, literalStop_eq, Opening.stop]
  cases rules.contentStop (o.tag text).closes (Text.drop o.length text) <;> rfl

mutual

/-- **The machine runs over a tag** and marks it and the tags inside it. -/
theorem TagRead.run_eq (hu : rules.Unambiguous) {o : Opening K} {text rest : Text} {s : Segment K}
    (h : TagRead rules o text s rest) (ho : rules.opening? text = some o) (pos : Nat)
    {stack : List (Frame K)} (hk : Known rules stack) (marks : List TagMark) :
    run rules ⟨pos, text, stack, marks⟩ = run rules ⟨pos + s.bytes, rest, stack,
      marks ++ s.marks (enclosing stack) marks.length pos⟩ := by
  rw [run_push hu pos ho hk]
  cases h with
  | @plain _ _ content closing _ hs =>
    rw [push, Machine.run_content, hs]
    dsimp only
    rw [Machine.leave_opened _ closing rest ⟨o.tag text, pos, marks.length⟩ stack marks [] _ rfl]
    simp only [Segment.marks, Segment.bytes, spanAt, Nat.add_assoc]
  | @nest _ inner _ seed mid after closing _ first siblings hs hf hl =>
    have hk' := hk.push ho pos marks.length
    have hinner := (Opening.text_of_opens hs).2
    rw [push, Machine.run_content, hs]
    dsimp only
    rw [hf.run_eq hu hinner _ hk', hl.run_eq hu _ hk' _ rfl]
    -- the pop at the end of the level completes the mark of this tag
    rw [List.append_assoc, List.append_assoc, List.singleton_append, Machine.leave_opened _ closing
      rest ⟨o.tag text, pos, marks.length⟩ stack marks _ _ rfl]
    simp only [enclosing, List.head?_cons, Option.map_some, List.length_append, List.length_cons,
      List.length_nil, Segment.marks, Segment.bytes, Nat.zero_add, Nat.add_assoc]

/-- **The machine runs over a level** and marks its tags. -/
theorem LevelRead.run_eq (hu : rules.Unambiguous) {closes : Text → Option Nat} {text rest : Text}
    {segments : List (Segment K)} {closing : Option Text}
    (h : LevelRead rules closes text segments closing rest) (pos : Nat) {stack : List (Frame K)}
    (hk : Known rules stack) (marks : List TagMark) (hc : closes = closing? stack) :
    run rules ⟨pos, text, stack, marks⟩ = run rules (leave ⟨pos + Segment.bytes.total segments, rest,
      stack, marks ++ Segment.marks.row (enclosing stack) marks.length pos segments⟩ closing) := by
  cases h with
  | done => simp [Segment.bytes.total, Segment.marks.row, leave]
  | swallows _ _ hs =>
    rw [run_literal, ← hc, hs]
    simp [Segment.bytes.total, Segment.bytes, Segment.marks.row, Segment.marks]
  | literal _ _ hs hl =>
    rw [run_literal, ← hc, hs]
    dsimp only
    rw [hl.run_eq hu _ hk _ hc]
    simp [Segment.bytes.total, Segment.bytes, Segment.marks.row, Segment.marks, Nat.add_assoc]
  | tag _ ho ht hl =>
    rw [ht.run_eq hu ho _ hk, hl.run_eq hu _ hk _ hc]
    simp [Segment.bytes.total, Segment.marks.row, Nat.add_assoc]

end

/-! ## Tags left open -/

/-- The machine ends with a tag on top that starts where only `left` is left to
read. -/
def Machine.EndsOpen (rules : Ruleset K) (m : Machine K) (t : Tag K) (left : Text) : Prop :=
  ∃ f below, (m.run rules).stack = f :: below ∧ f.tag = t ∧
    f.start + Text.bytes left = m.pos + Text.bytes m.left

/-- A machine that reads on ends with the same tag on top. -/
theorem Machine.EndsOpen.of_run_eq {m m' : Machine K} {t : Tag K} {left before : Text}
    (h : m'.EndsOpen rules t left) (hrun : m.run rules = m'.run rules)
    (hpos : m'.pos = m.pos + Text.bytes before) (hleft : before ++ m'.left = m.left) :
    m.EndsOpen rules t left := by
  obtain ⟨f, below, hstack, htag, hstart⟩ := h
  have hbytes := congrArg Text.bytes hleft
  rw [Text.bytes_append] at hbytes
  exact ⟨f, below, by rw [hrun, hstack], htag, by omega⟩

/-- A machine that pushes a tag and halts before it is popped ends with it on top. -/
theorem Machine.endsOpen_of_run_eq (hu : rules.Unambiguous) {o : Opening K} {text : Text}
    {pos stop : Nat} {stack : List (Frame K)} {marks marks' : List TagMark} (hk : Known rules stack)
    (ho : rules.opening? text = some o)
    (hrun : run rules (push ⟨pos, text, stack, marks⟩ o) =
      run rules ⟨stop, [], ⟨o.tag text, pos, marks.length⟩ :: stack, marks'⟩) :
    Machine.EndsOpen rules ⟨pos, text, stack, marks⟩ (o.tag text) text := by
  refine ⟨⟨o.tag text, pos, marks.length⟩, stack, ?_, rfl, rfl⟩
  rw [run_push hu pos ho hk, hrun, run_end hu _ (hk.push ho _ _)]

/-- Between two tags in a row nothing but the first is read. -/
theorem TagRead.endsOpen_after (hu : rules.Unambiguous) {o : Opening K} {text mid left : Text}
    {s : Segment K} {t : Tag K} (h : TagRead rules o text s mid) (ho : rules.opening? text = some o)
    (pos : Nat) {stack : List (Frame K)} (hk : Known rules stack) (marks : List TagMark)
    (hend : ∀ pos marks, Machine.EndsOpen rules ⟨pos, mid, stack, marks⟩ t left) :
    Machine.EndsOpen rules ⟨pos, text, stack, marks⟩ t left := by
  refine (hend _ _).of_run_eq (h.run_eq hu ho pos hk marks) ?_ h.text_eq
  rw [Segment.bytes_text]

/-- What ends with a tag on top after the seed of a tag does so from before that tag. -/
theorem Machine.endsOpen_of_seed (hu : rules.Unambiguous) {o inner : Opening K}
    {text seed mid left : Text} {t : Tag K} (hs : o.stop rules text = .opens seed inner mid)
    (ho : rules.opening? text = some o) (pos : Nat) {stack : List (Frame K)}
    (hk : Known rules stack) (marks : List TagMark)
    (hend : ∀ pos' marks', Machine.EndsOpen rules
      ⟨pos', mid, ⟨o.tag text, pos, marks.length⟩ :: stack, marks'⟩ t left) :
    Machine.EndsOpen rules ⟨pos, text, stack, marks⟩ t left := by
  have hrun := run_push hu pos ho hk marks
  rw [push, Machine.run_content, hs] at hrun
  refine (hend _ _).of_run_eq hrun ?_ (Opening.text_of_opens hs).1
  rw [Text.bytes_append, Nat.add_assoc]

mutual

/-- **The machine ends with the tag on top that reading a tag leaves open.** -/
theorem TagOpen.endsOpen (hu : rules.Unambiguous) {o : Opening K} {text left : Text} {t : Tag K}
    (h : TagOpen rules t left o text) (ho : rules.opening? text = some o) (pos : Nat)
    {stack : List (Frame K)} (hk : Known rules stack) (marks : List TagMark) :
    Machine.EndsOpen rules ⟨pos, text, stack, marks⟩ t left := by
  match h with
  | .missing ht hleft hs =>
    rw [ht, hleft]
    apply Machine.endsOpen_of_run_eq hu hk ho
    rw [push, Machine.run_content, hs]
  | .first hs hf =>
    have hinner := (Opening.text_of_opens hs).2
    apply Machine.endsOpen_of_seed hu hs ho pos hk marks
    intro pos' marks'
    exact hf.endsOpen hu hinner pos' (hk.push ho _ _) marks'
  | .level hs hf hl =>
    have hinner := (Opening.text_of_opens hs).2
    have hk' := hk.push ho pos marks.length
    apply Machine.endsOpen_of_seed hu hs ho pos hk marks
    intro pos' marks'
    apply hf.endsOpen_after hu hinner pos' hk' marks'
    intro pos'' marks''
    exact hl.endsOpen hu pos'' hk' marks'' rfl
  | .ended ht hleft hs hf hl =>
    -- the text ends inside the level, so the machine halts before the pop
    have hinner := (Opening.text_of_opens hs).2
    have hk' := hk.push ho pos marks.length
    obtain rfl := hl.rest_eq_nil
    rw [ht, hleft]
    apply Machine.endsOpen_of_run_eq hu hk ho
    rw [push, Machine.run_content, hs]
    dsimp only
    rw [hf.run_eq hu hinner _ hk', hl.run_eq hu _ hk' _ rfl, leave]

/-- **The machine ends with the tag on top that reading a level leaves open.** -/
theorem LevelOpen.endsOpen (hu : rules.Unambiguous) {closes : Text → Option Nat} {text left : Text}
    {t : Tag K} (h : LevelOpen rules t left closes text) (pos : Nat) {stack : List (Frame K)}
    (hk : Known rules stack) (marks : List TagMark) (hc : closes = closing? stack) :
    Machine.EndsOpen rules ⟨pos, text, stack, marks⟩ t left := by
  match h with
  | .literal _ _ hs hl =>
    refine (hl.endsOpen hu _ hk marks hc).of_run_eq ?_ rfl (Ruleset.literalStop_boundary hs)
    rw [run_literal, ← hc, hs]
  | .here _ ho hb => exact hb.endsOpen hu ho pos hk marks
  | .later _ ho ht hl =>
    apply ht.endsOpen_after hu ho pos hk marks
    intro pos' marks'
    exact hl.endsOpen hu pos' hk marks' hc

end

end Bracketry
