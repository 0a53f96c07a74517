import Bracketry.Proofs.Evaluation

/-!
# Rendering entry by entry

Rendering takes two entries at a time: a nested sequence right behind a piece belongs to that
piece. Here the rendering is laid out entry by entry, each with what stands on either side of it,
and the texts of the entries are put together in their order.

* `Template.entryText`: what an entry adds to the text, between its two neighbours.
* `Template.render_concatenates`: **a rendering is the texts of its entries in order,** and
  nothing else is.
* `Template.render_skips_nested`: a nested sequence behind a plain text is lost.
-/

namespace Bracketry

/-- The entries of a row with their neighbours on either side. `before` stands in front of the
row. -/
def Assembly.between {α : Type} (before : Option (Entry α)) :
    Assembly α → List (Option (Entry α) × Entry α × Option (Entry α))
  | [] => []
  | e :: rest => (before, e, rest.head?) :: between (some e) rest

/-- Two neighbours in a row stand next to each other. -/
theorem Assembly.exists_split {α : Type} {before : Option (Entry α)} {a : Assembly α}
    {x y : Entry α} {z : Option (Entry α)} (h : (some x, y, z) ∈ a.between before) :
    ∃ front back, before.toList ++ a = front ++ x :: y :: back := by
  induction a generalizing before with
  | nil => cases h
  | cons e rest ih =>
    rcases List.mem_cons.1 h with h | h
    · cases h
      exact ⟨[], rest, rfl⟩
    · obtain ⟨front, back, hsplit⟩ := ih h
      refine ⟨before.toList ++ front, back, ?_⟩
      rw [List.append_assoc, ← hsplit]
      rfl

namespace Template

/-- The pieces that hold other pieces. -/
def Piece.isBlock : Piece → Bool
  | .filter _ _ => true
  | .optional _ => true
  | _ => false

/-- What an entry adds to the text. A piece is rendered with the nested sequence right behind it,
if there is one. A nested sequence right behind a piece that owns it adds nothing of its own, and
any other nested sequence adds what `link` makes of it. -/
def entryText (owns : Piece → Bool) (link : Assembly Piece → Except Failure String) :
    Option (Assembly.Entry Piece) × Assembly.Entry Piece × Option (Assembly.Entry Piece) →
      Except Failure String
  | (_, .item piece, some (.nested entries)) => piece.render fun _ => link entries
  | (_, .item piece, _) => piece.render .ok
  | (some (.item piece), .nested entries, _) => if owns piece then .ok "" else link entries
  | (_, .nested entries, _) => link entries

/-- The texts of entries behind `before` in order; the first error wins. -/
def textsFrom (owns : Piece → Bool) (link : Assembly Piece → Except Failure String)
    (before : Option (Assembly.Entry Piece)) (a : Assembly Piece) : Except Failure String :=
  ((a.between before).mapM (entryText owns link)).map String.join

/-- The texts of all entries in order. -/
def concatenation (owns : Piece → Bool) (link : Assembly Piece → Except Failure String)
    (a : Assembly Piece) : Except Failure String :=
  textsFrom owns link none a

variable {owns owns' : Piece → Bool} {link link' : Assembly Piece → Except Failure String}
  {before : Option (Assembly.Entry Piece)}

theorem textsFrom_nil : textsFrom owns link before [] = .ok "" := rfl

theorem textsFrom_cons (e : Assembly.Entry Piece) (rest : Assembly Piece) :
    textsFrom owns link before (e :: rest) =
      entryText owns link (before, e, rest.head?) >>= fun text =>
        textsFrom owns link (some e) rest >>= fun more => .ok (text ++ more) := by
  unfold textsFrom
  rw [Assembly.between, List.mapM_cons]
  cases entryText owns link (before, e, rest.head?) with
  | error e => rfl
  | ok text =>
    cases (Assembly.between (some e) rest).mapM (entryText owns link) with
    | error e => rfl
    | ok texts => exact congrArg Except.ok String.join_cons

/-- An entry that is a nested sequence with no piece in front of it. -/
theorem entryText_nested {entries : Assembly Piece} {after : Option (Assembly.Entry Piece)}
    (h : ∀ piece, before ≠ some (.item piece)) :
    entryText owns link (before, .nested entries, after) = link entries := by
  match before with
  | none => rfl
  | some (.nested _) => rfl
  | some (.item piece) => exact absurd rfl (h piece)

theorem entryText_item {piece : Piece} {rest : Assembly Piece}
    (h : ∀ entries more, rest ≠ .nested entries :: more) :
    entryText owns link (before, .item piece, rest.head?) = piece.render .ok := by
  match rest with
  | [] => rfl
  | .item _ :: _ => rfl
  | .nested entries :: more => exact absurd rfl (h entries more)

/-- **A row renders as the texts of its entries,** unless it begins with a nested sequence that
belongs to a piece in front of the row. -/
theorem renderPieces_eq_textsFrom (a : Assembly Piece)
    (h : ∀ piece entries rest, before = some (.item piece) → a ≠ .nested entries :: rest) :
    renderPieces a = textsFrom (fun _ => true) renderPieces before a := by
  induction a using renderPieces.induct generalizing before with
  | case1 => rw [renderPieces, textsFrom_nil]
  | case2 entries rest _ ihrest =>
    have hfirst : ∀ piece, before ≠ some (.item piece) := by
      intro piece hbefore
      exact h piece entries rest hbefore rfl
    have hrest := @ihrest (some (.nested entries)) fun _ _ _ hb => nomatch hb
    rw [renderPieces, textsFrom_cons, entryText_nested hfirst, ← hrest]
  | case3 piece entries rest _ ihrest =>
    have hrest := @ihrest (some (.nested entries)) fun _ _ _ hb => nomatch hb
    -- the nested sequence is rendered with the piece and adds nothing of its own
    rw [renderPieces_nested, textsFrom_cons, textsFrom_cons, ← hrest]
    refine bind_congr fun text => ?_
    cases renderPieces rest with
    | error e => rfl
    | ok more =>
      show Except.ok (text ++ more) = Except.ok (text ++ ("" ++ more))
      rw [String.empty_append]
  | case4 piece rest hnone ihrest =>
    have hne : ∀ entries more, rest ≠ .nested entries :: more := fun entries more heq =>
      hnone entries more heq
    have hrest := @ihrest (some (.item piece)) fun _ entries more _ => hne entries more
    rw [renderPieces_item hne, textsFrom_cons, entryText_item hne, ← hrest]

/-- Behind a nested sequence a row renders as if nothing stood in front of it. -/
theorem textsFrom_nested (entries a : Assembly Piece) :
    textsFrom (fun _ => true) renderPieces (some (.nested entries)) a = renderPieces a := by
  refine (renderPieces_eq_textsFrom a ?_).symm
  intro _ _ _ h
  cases h

theorem renderPieces_eq_concatenation (a : Assembly Piece) :
    renderPieces a = concatenation (fun _ => true) renderPieces a := by
  refine renderPieces_eq_textsFrom a ?_
  intro _ _ _ h
  cases h

/-- Entries that add the same, each in its place, add the same in a row. -/
theorem textsFrom_congr {a : Assembly Piece}
    (h : ∀ x ∈ a.between before, entryText owns link x = entryText owns' link' x) :
    textsFrom owns link before a = textsFrom owns' link' before a := by
  induction a generalizing before with
  | nil => rfl
  | cons e rest ih =>
    obtain ⟨hfirst, hrest⟩ := List.forall_mem_cons.1 h
    rw [textsFrom_cons, textsFrom_cons, hfirst, ih hrest]

/-- Which pieces own a nested sequence matters only where one stands right behind a piece. -/
theorem concatenation_congr {a : Assembly Piece}
    (h : ∀ front piece entries back, a = front ++ .item piece :: .nested entries :: back →
      owns piece = owns' piece) : concatenation owns link a = concatenation owns' link a := by
  refine textsFrom_congr ?_
  rintro ⟨before, e, after⟩ hx
  cases e with
  | item piece =>
    cases after with
    | none => rfl
    | some e => cases e <;> rfl
  | nested entries =>
    cases before with
    | none => rfl
    | some e =>
      cases e with
      | nested _ => rfl
      | item piece =>
        obtain ⟨front, back, hsplit⟩ := Assembly.exists_split hx
        simp only [entryText, h front piece entries back hsplit]

theorem entryText_nested_congr {entries : Assembly Piece} {after : Option (Assembly.Entry Piece)}
    (h : link entries = link' entries) :
    entryText owns link (before, .nested entries, after) =
      entryText owns link' (before, .nested entries, after) := by
  cases before with
  | none => exact h
  | some e =>
    cases e with
    | nested _ => exact h
    | item piece =>
      simp only [entryText]
      rw [h]

theorem entryText_item_congr {piece : Piece} {entries : Assembly Piece}
    (h : link entries = link' entries) :
    entryText owns link (before, .item piece, some (.nested entries)) =
      entryText owns link' (before, .item piece, some (.nested entries)) := by
  simp only [entryText]
  rw [h]

/-- Whatever links every sequence as the texts of its entries renders it. -/
theorem eq_renderPieces (h : ∀ a, link a = concatenation (fun _ => true) link a)
    (a : Assembly Piece) : link a = renderPieces a := by
  -- what is nested in a sequence settles its link
  have hlink : ∀ a, textsFrom (fun _ => true) link none a =
      textsFrom (fun _ => true) renderPieces none a → link a = renderPieces a := by
    intro a ha
    rw [h a, renderPieces_eq_concatenation]
    exact ha
  refine hlink a ?_
  generalize (none : Option (Assembly.Entry Piece)) = before
  induction a using renderPieces.induct generalizing before with
  | case1 => rfl
  | case2 entries rest ihentries ihrest =>
    have hentries := hlink entries (ihentries none)
    rw [textsFrom_cons, textsFrom_cons, ihrest, entryText_nested_congr hentries]
  | case3 piece entries rest ihentries ihrest =>
    have hentries := hlink entries (ihentries none)
    rw [textsFrom_cons, textsFrom_cons, textsFrom_cons, textsFrom_cons, ihrest,
      entryText_nested_congr hentries]
    exact congrArg (· >>= _) (entryText_item_congr hentries)
  | case4 piece rest hnone ihrest =>
    have hne : ∀ entries more, rest ≠ .nested entries :: more := fun entries more heq =>
      hnone entries more heq
    rw [textsFrom_cons, textsFrom_cons, ihrest, entryText_item hne, entryText_item hne]

theorem render_of_not_block {piece : Piece} (h : piece.isBlock = false)
    (body body' : String → Except Failure String) : piece.render body = piece.render body' := by
  cases piece with
  | text t => rfl
  | value name value => cases value <;> rfl
  | raw capture => rfl
  | filter f own => cases h
  | optional own => cases h

/-- **A nested sequence right behind a piece that is no block is lost,** whatever is in it. -/
theorem textsFrom_lost {piece : Piece} (h : piece.isBlock = false)
    (front entries entries' back : Assembly Piece) :
    textsFrom (fun _ => true) renderPieces before (front ++ .item piece :: .nested entries :: back) =
      textsFrom (fun _ => true) renderPieces before
        (front ++ .item piece :: .nested entries' :: back) := by
  induction front generalizing before with
  | nil =>
    have hpiece := render_of_not_block h (fun _ => renderPieces entries) fun _ => renderPieces entries'
    simp only [List.nil_append, textsFrom_cons, entryText, List.head?_cons, hpiece, if_true,
      textsFrom_nested]
  | cons e front ih =>
    have hhead : (front ++ .item piece :: .nested entries :: back).head? =
        (front ++ .item piece :: .nested entries' :: back).head? := by
      cases front <;> rfl
    rw [List.cons_append, List.cons_append, textsFrom_cons, textsFrom_cons, hhead, ih]

/-- No nested sequence stands right behind a piece that is no block. -/
def Paired (a : Assembly Piece) : Prop :=
  ∀ front piece entries back, a = front ++ .item piece :: .nested entries :: back →
    piece.isBlock = true

/-- **A rendering is the texts of its entries in their order,** where every piece owns a nested
sequence right behind it. A filter and an optional section render theirs, so where nothing but
these stands in front of a nested sequence, nothing is lost but what a section drops. Behind
any other piece a nested sequence is lost. Rendering is the only way to link sequences so. -/
theorem render_concatenates (a : Assembly Piece) :
    renderPieces a = concatenation (fun _ => true) renderPieces a ∧
    (Paired a → renderPieces a = concatenation Piece.isBlock renderPieces a) ∧
    (∀ front piece entries entries' back, a = front ++ .item piece :: .nested entries :: back →
      piece.isBlock = false →
      renderPieces a = renderPieces (front ++ .item piece :: .nested entries' :: back)) ∧
    ∀ link : Assembly Piece → Except Failure String,
      (∀ a, link a = concatenation (fun _ => true) link a) → link = renderPieces := by
  refine ⟨renderPieces_eq_concatenation a, ?_, ?_, ?_⟩
  · intro hblocks
    rw [renderPieces_eq_concatenation]
    refine concatenation_congr ?_
    intro front piece entries back hsplit
    exact (hblocks front piece entries back hsplit).symm
  · rintro front piece entries entries' back rfl hpiece
    rw [renderPieces_eq_concatenation, renderPieces_eq_concatenation]
    exact textsFrom_lost hpiece front entries entries' back
  · intro link hlink
    funext a
    exact eq_renderPieces hlink a

/-- A filter with its nested sequence, and a nested sequence of its own. -/
def shouted : Assembly Piece :=
  [.item (.filter .upper ""), .nested [.item (.text "b")], .nested [.item (.text "c")]]

theorem render_concatenates_shouted :
    Paired shouted ∧ renderPieces shouted = concatenation Piece.isBlock renderPieces shouted ∧
    (Piece.text "a").isBlock = false ∧
    renderPieces [.item (.text "a"), .nested shouted] =
      renderPieces [.item (.text "a"), .nested []] := by
  have hpaired : Paired shouted := by
    intro front piece entries back h
    -- a nested sequence stands right behind a piece at the start only
    rcases front with _ | ⟨_, _ | ⟨_, _ | ⟨_, front⟩⟩⟩
    · cases h
      rfl
    all_goals simp [shouted] at h
  exact ⟨hpaired, (render_concatenates shouted).2.1 hpaired, rfl,
    (render_concatenates _).2.2.1 [] (.text "a") shouted [] [] rfl rfl⟩

theorem render_skips_nested :
    renderPieces [.item (.text "a"), .nested [.item (.text "b")]] = .ok "a" ∧
    concatenation Piece.isBlock renderPieces
      [.item (.text "a"), .nested [.item (.text "b")]] = .ok "ab" := by
  have hinner : renderPieces [.item (.text "b")] = .ok "b" := by cbv
  constructor
  · cbv
  · simp only [concatenation, textsFrom_cons, textsFrom_nil, entryText, List.head?_cons, hinner]
    rfl

end Template

end Bracketry
