import Bracketry.Proofs.Machine
import Bracketry.Proofs.Sites

/-!
# A scan is one pass of a stack machine

The tags of a scanned tree, numbered in the order in which they were admitted, are
those that the machine marks, and where the scan fails the machine ends with a tag
on its stack.

* `Drawn.marks_eq`: the tags of a tree are the marks of its outline.
* `OutlineRead.run_eq`, `OutlineOpen.endsOpen`: what the machine does with a source.
* `scan_one_pass`: **over an unambiguous ruleset and within its limits a scan agrees
  with the machine.**
-/

namespace Bracketry

variable {K : Type}

/-! ## The tags of a tree -/

def Token.isTag (t : Token K) : Bool :=
  match t.variant with
  | .tag _ => true
  | _ => false

/-- The number of tags before a token. -/
def Token.rank (tokens : List (Token K)) (id : Nat) : Nat := (tokens.take id).countP isTag

/-- A tag as the machine marks it down. -/
def Token.mark? (tokens : List (Token K)) (t : Token K) : Option TagMark :=
  match t.variant with
  | .tag rule => some ⟨rule, t.opening, t.content, t.closing, t.parent.map (rank tokens)⟩
  | _ => none

/-- The tags of a tree, as the machine marks them down. -/
def TokenTree.marks (t : TokenTree K) : List TagMark :=
  t.tokens.toList.filterMap (Token.mark? t.tokens.toList)

theorem Token.isSome_mark? (tokens : List (Token K)) (t : Token K) :
    (t.mark? tokens).isSome = t.isTag := by
  unfold mark? isTag
  cases t.variant <;> rfl

theorem length_filterMap_mark? (tokens ts : List (Token K)) :
    (ts.filterMap (Token.mark? tokens)).length = ts.countP Token.isTag := by
  rw [List.length_filterMap_eq_countP]
  apply List.countP_congr
  intro t _
  rw [Token.isSome_mark?]

/-- The tokens of some courses. -/
def tokensOf (cs : List (Course K)) : List (Token K) := cs.map Course.token

/-- The marks of the tokens of some courses among all courses. -/
def marksIn (all cs : List (Course K)) : List TagMark :=
  (tokensOf cs).filterMap (Token.mark? (tokensOf all))

theorem marksIn_nil (all : List (Course K)) : marksIn all [] = [] := rfl

theorem marksIn_cons (all cs : List (Course K)) (c : Course K) :
    marksIn all (c :: cs) = (c.token.mark? (tokensOf all)).toList ++ marksIn all cs := by
  simp only [marksIn, tokensOf, List.map_cons, List.filterMap_cons]
  cases c.token.mark? (List.map Course.token all) <;> rfl

theorem marksIn_append (all cs ds : List (Course K)) :
    marksIn all (cs ++ ds) = marksIn all cs ++ marksIn all ds := by
  simp only [marksIn, tokensOf, List.map_append, List.filterMap_append]

/-- The tags after a row are numbered on after its marks. -/
theorem rank_add {all cs : List (Course K)} {n : Nat} (h : Outline.RowAt all n cs) :
    Token.rank (tokensOf all) (n + cs.length) =
      Token.rank (tokensOf all) n + (marksIn all cs).length := by
  rw [marksIn, length_filterMap_mark?]
  obtain ⟨before, after, rfl, rfl⟩ := h
  have hlen : before.length = (tokensOf before).length := (List.length_map ..).symm
  have hlen' : cs.length = (tokensOf cs).length := (List.length_map ..).symm
  rw [hlen, hlen']
  simp only [Token.rank, tokensOf, List.map_append]
  rw [List.take_left' rfl, ← List.append_assoc, ← List.length_append, List.take_left' rfl,
    List.countP_append]

theorem rank_succ {all cs : List (Course K)} {c : Course K} {n : Nat}
    (h : Outline.RowAt all n (c :: cs)) : Token.rank (tokensOf all) (n + 1) =
      Token.rank (tokensOf all) n + (c.token.mark? (tokensOf all)).toList.length := by
  have hc : Outline.RowAt all n ([c] ++ cs) := h
  have hadd := rank_add hc.left
  rwa [marksIn_cons, marksIn_nil, List.append_nil] at hadd

/-- A group is no tag, whatever it takes in. -/
theorem Token.isTag_attach (t : Token K) (child : Nat) (span : Span) (emptyLiteral : Bool) :
    (t.attach child span emptyLiteral).isTag = t.isTag := by
  unfold attach isTag
  cases emptyLiteral <;> cases hv : t.variant <;> simp [hv]

theorem mark?_group (tokens : List (Token K)) (kind : K) (parent : Option Nat) (stream : Span)
    (children : List Child) :
    (Course.group kind parent stream children).token.mark? tokens = none := by
  have hfold : ∀ t : Token K,
      (children.foldl (fun t c => t.attach c.id c.span c.emptyLiteral) t).isTag = t.isTag := by
    induction children with
    | nil => intro t; rfl
    | cons c rest ih => intro t; rw [List.foldl_cons, ih, Token.isTag_attach]
  have htag := Token.isSome_mark? tokens (Course.group kind parent stream children).token
  rw [show (Course.group kind parent stream children).token.isTag = false from hfold _] at htag
  exact Option.isNone_iff_eq_none.1 (by simpa using htag)

variable {l : Layout K} {all : List (Course K)}

mutual

/-- **The tags of a segment are its marks.** -/
theorem Segment.marks_eq {parent : Option Nat} {start id next : Nat} (s : Segment K)
    (hr : Outline.RowAt all next (s.inner l id start next))
    (hn : Token.rank (tokensOf all) next = Token.rank (tokensOf all) id +
      ((s.own l parent start next).token.mark? (tokensOf all)).toList.length) :
    ((s.own l parent start next).token.mark? (tokensOf all)).toList ++
        marksIn all (s.inner l id start next) =
      s.marks (parent.map (Token.rank (tokensOf all))) (Token.rank (tokensOf all) id) start := by
  cases s with
  | literal plain swallowed => rfl
  | tag t content closing => rfl
  | nest t seed first siblings closing =>
    rw [Site.inner_nest _ _ _ _ _ _ parent] at hr ⊢
    have hnext : Token.rank (tokensOf all) next = Token.rank (tokensOf all) id + 1 := hn
    -- the seed and the group between the first part and what is inside it are no tags
    have hafter : Token.rank (tokensOf all) (next + 1 + 1 + 1) = Token.rank (tokensOf all) next +
        ((first.own l (some id) (start + Text.bytes t.opening + Text.bytes seed)
          (next + 3)).token.mark? (tokensOf all)).toList.length := by
      rw [rank_succ hr.tail.tail, mark?_group, rank_succ hr.tail, rank_succ hr]
      rfl
    have hfirst : ((first.own l (some id) (start + Text.bytes t.opening + Text.bytes seed)
          (next + 3)).token.mark? (tokensOf all)).toList ++ marksIn all (first.inner l next
          (start + Text.bytes t.opening + Text.bytes seed) (next + 3)) =
        first.marks (some (Token.rank (tokensOf all) id)) (Token.rank (tokensOf all) next)
          (start + Text.bytes t.opening + Text.bytes seed) :=
      marks_eq first hr.tail.tail.tail.left hafter
    have hlen := length_inner l next (start + Text.bytes t.opening + Text.bytes seed) (next + 3) first
    have hright := hr.tail.tail.tail.right
    have hrank := rank_add hr.tail.tail.tail.left
    have hplace : next + 1 + 1 + 1 + (first.inner l next (start + Text.bytes t.opening +
        Text.bytes seed) (next + 3)).length = next + 2 + first.count := by omega
    rw [hplace, hafter, Nat.add_assoc (Token.rank _ _), ← List.length_append, hfirst, hnext] at hrank
    rw [hplace] at hright
    have hrow := marks_row_eq siblings hright
    rw [hnext] at hfirst
    have hseed : (Course.seed l.literalKind (some id)
        (spanAt (start + Text.bytes t.opening) seed)).token.mark? (tokensOf all) = none := rfl
    rw [marksIn_cons, marksIn_cons, marksIn_cons, mark?_group, hseed, marksIn_append, hrow, hrank,
      Option.toList_none, List.nil_append, List.nil_append, ← List.append_assoc (Option.toList _)
        (marksIn all _), hfirst]
    rfl

/-- The tags of segments in a row are their marks. -/
theorem Segment.marks_row_eq {parent : Option Nat} {start next : Nat} (segments : List (Segment K))
    (hr : Outline.RowAt all next (inner.row l parent start next segments)) :
    marksIn all (inner.row l parent start next segments) =
      marks.row (parent.map (Token.rank (tokensOf all))) (Token.rank (tokensOf all) next) start
        segments := by
  cases segments with
  | nil => rfl
  | cons s rest =>
    simp only [inner.row] at hr ⊢
    have hlen := length_inner l next start (next + 1) s
    have hown := marks_eq s hr.tail.left (rank_succ hr)
    -- the segments after this one are numbered on after its tags
    have hright := hr.tail.right
    have hrank := rank_add hr.tail.left
    rw [show next + 1 + (s.inner l next start (next + 1)).length = next + s.count by omega]
      at hright hrank
    have hrest := marks_row_eq rest hright
    rw [rank_succ hr, Nat.add_assoc, ← List.length_append, hown] at hrank
    rw [marksIn_cons, marksIn_append, ← List.append_assoc, hown, hrest, hrank]
    rfl

end

/-- The marks of the tags of a whole source. -/
def Outline.marks (o : Outline K) : List TagMark := Segment.marks.row none 0 0 o.segments

theorem Segment.marks_row_append (outer : Option Nat) (number start : Nat)
    (segments more : List (Segment K)) :
    marks.row outer number start (segments ++ more) = marks.row outer number start segments ++
      marks.row outer (number + (marks.row outer number start segments).length)
        (start + bytes.total segments) more := by
  induction segments generalizing number start with
  | nil => rfl
  | cons s rest ih =>
    simp only [List.cons_append, marks.row, bytes.total, List.length_append, ih, List.append_assoc,
      Nat.add_assoc]

/-- The tags of an outline are its marks. -/
theorem Outline.marksIn_courses (l : Layout K) (o : Outline K) :
    marksIn (o.courses l) (o.courses l) = o.marks := by
  have hall : RowAt (o.courses l) 0 (o.courses l) := ⟨[], [], by simp, rfl⟩
  have hzero : Token.rank (tokensOf (o.courses l)) 0 = 0 := by simp [Token.rank]
  cases o with
  | single s =>
    have hs := Segment.marks_row_eq [s] hall
    rw [hzero] at hs
    exact hs
  | series first second more =>
    rw [courses_series] at hall hzero ⊢
    have hleft := Segment.marks_row_eq [first, second] hall.left
    have hright := hall.right
    have hrank := rank_add hall.left
    rw [hzero] at hleft
    rw [hzero, hleft] at hrank
    rw [length_row_pair, Nat.zero_add] at hright hrank
    have hgroup := rank_succ hright
    rw [mark?_group, hrank] at hgroup
    have hmore := Segment.marks_row_eq more hright.tail
    rw [hgroup] at hmore
    rw [marksIn_append, marksIn_cons, mark?_group, hleft, hmore, marks,
      show segments (series first second more) = [first, second] ++ more from rfl,
      Segment.marks_row_append]
    simp [Segment.bytes.total]

/-- **The tags of a tree are the marks of its outline.** -/
theorem TokenTree.Drawn.marks_eq {rules : Ruleset K} {t : TokenTree K} {o : Outline K}
    (h : t.Drawn rules o) : t.marks = o.marks := by
  rw [TokenTree.marks, h.tokens]
  exact o.marksIn_courses (layout rules t.source)

/-! ## The machine on a whole source -/

variable {rules : Ruleset K}

/-- An empty source has no tags. -/
theorem OutlineRead.marks_of_empty (hu : rules.Unambiguous) {o : Outline K}
    (h : OutlineRead rules [] o) : o.marks = [] := by
  cases h with
  | single hs =>
    cases hs with
    | swallows _ hp => exact absurd hp (literalStop_noTag _ _ _ _ _)
    | literal _ _ => rfl
    | tag ho _ => rw [Machine.opening?_nil hu] at ho; cases ho
  | series hs hmid _ _ =>
    have htext := hs.text_eq
    exact absurd (List.append_eq_nil_iff.1 htext).2 hmid

/-- **The machine reads a source to its end** and marks its tags. -/
theorem OutlineRead.run_eq (hu : rules.Unambiguous) {source : Text} {o : Outline K}
    (h : OutlineRead rules source o) :
    (Machine.start source).run rules = ⟨Text.bytes source, [], [], o.marks⟩ := by
  have hk : Machine.Known rules [] := fun f hf => absurd hf List.not_mem_nil
  by_cases hne : source = []
  · subst hne
    rw [h.marks_of_empty hu, Machine.start, Machine.run_end hu _ hk]
    rfl
  · have hl := (h.level hne).run_eq hu 0 hk [] rfl
    have hbytes := Segment.bytes_texts o.segments
    rw [← Outline.text, h.text_eq] at hbytes
    rw [Machine.start, hl, Machine.leave, Machine.run_end hu _ hk, ← hbytes, Nat.zero_add]
    rfl

/-- **The machine ends with the tag on top that reading a source leaves open.** -/
theorem OutlineOpen.endsOpen (hu : rules.Unambiguous) {source left : Text} {t : Tag K}
    (h : OutlineOpen rules source t left) : (Machine.start source).EndsOpen rules t left := by
  have hk : Machine.Known rules [] := fun f hf => absurd hf List.not_mem_nil
  rcases h with ⟨o, ho, hb⟩ | hl
  · exact hb.endsOpen hu ho 0 hk []
  · exact hl.endsOpen hu 0 hk [] rfl

/-! ## Scans -/

variable [DecidableEq K] [Taxonomy K]

/-- A scan agrees with the machine: the machine reads to the end, the scan has a
result exactly if no tag is open there, its tags are then those that the machine
marked, and else it fails with the tag on top of the stack. -/
structure TokenTree.OnePass (rules : Ruleset K) (limits : Limits) (source : Text) : Prop where
  left_eq : ((Machine.start source).run rules).left = []
  ok_iff : (∃ t, scan rules limits source = .ok t) ↔ ((Machine.start source).run rules).stack = []
  marks_eq : ∀ t, scan rules limits source = .ok t →
    t.marks = ((Machine.start source).run rules).marks
  unclosed : ∀ f below, ((Machine.start source).run rules).stack = f :: below →
    scan rules limits source = .error (f.tag.unclosed f.start)

theorem TokenTree.onePass (hu : rules.Unambiguous) {limits : Limits} {source : Text}
    (hlimits : ∀ e, scan rules limits source = .error e → ¬e.IsLimit) :
    OnePass rules limits source := by
  have hanswers := scan_answers rules limits source
  have hleft := (Machine.start source).left_run rules
  cases hscan : scan rules limits source with
  | ok t =>
    rw [hscan] at hanswers
    cases hanswers with
    | ok hd =>
      obtain ⟨hsource, o, hdrawn⟩ := hd
      have hrun := hdrawn.read.run_eq hu
      rw [hsource] at hrun
      refine ⟨hleft, ?_, ?_, ?_⟩
      · rw [hrun]
        exact ⟨fun _ => rfl, fun _ => ⟨t, hscan⟩⟩
      · intro t' ht'
        rw [hscan] at ht'
        cases ht'
        rw [hrun, hdrawn.marks_eq]
      · intro f below hstack
        rw [hrun] at hstack
        cases hstack
  | error e =>
    rw [hscan] at hanswers
    cases hanswers with
    | limit hl => exact absurd hl (hlimits e hscan)
    | @unclosed tag left hopen =>
      obtain ⟨f, below, hstack, htag, hstart⟩ := OutlineOpen.endsOpen hu hopen
      -- the scan knows where the tag starts by what is left there
      have hoffset : f.start = (Scanner.mk rules limits source).offset left := by
        unfold Scanner.offset
        simp only [Machine.start] at hstart ⊢
        omega
      refine ⟨hleft, ?_, ?_, ?_⟩
      · rw [hstack]
        refine ⟨?_, fun h => ?_⟩
        · rintro ⟨t, ht⟩
          rw [hscan] at ht
          cases ht
        · cases h
      · intro t ht
        rw [hscan] at ht
        cases ht
      · intro f' below' hstack'
        rw [hstack] at hstack'
        cases hstack'
        rw [hscan, htag, hoffset]

/-- **A scan is one pass of the machine** over every unambiguous ruleset, unless it
reaches a limit. The template language is unambiguous, and so are tags between fixed
texts if no open text and close text are prefixes of one another. -/
theorem scan_one_pass :
    Template.rules.Unambiguous ∧
    (∀ {K : Type} (literalKind groupKind : K) (pairs : List (Pair K)), Pair.Apart pairs →
      (Ruleset.ofPairs literalKind groupKind pairs).Unambiguous) ∧
    ∀ {K : Type} [DecidableEq K] [Taxonomy K] (rules : Ruleset K) (limits : Limits) (source : Text),
      rules.Unambiguous → (∀ e, TokenTree.scan rules limits source = .error e → ¬e.IsLimit) →
      TokenTree.OnePass rules limits source := by
  refine ⟨Template.unambiguous, ?_, ?_⟩
  · intro K literalKind groupKind pairs hapart
    exact Ruleset.unambiguous_ofPairs literalKind groupKind hapart
  · intro K _ _ rules limits source hu hlimits
    exact TokenTree.onePass hu hlimits

theorem scan_one_pass_sample : Template.rules.Unambiguous ∧
    (∀ e, TokenTree.scan Template.rules .default Template.sample = .error e → ¬e.IsLimit) ∧
    TokenTree.OnePass Template.rules .default Template.sample := by
  obtain ⟨t, ht, -⟩ := Template.scan_sample
  have hlimits : ∀ e, TokenTree.scan Template.rules .default Template.sample = .error e →
      ¬e.IsLimit := by
    intro e he
    rw [ht] at he
    cases he
  exact ⟨scan_one_pass.1, hlimits,
    scan_one_pass.2.2 Template.rules .default Template.sample scan_one_pass.1 hlimits⟩

end Bracketry
