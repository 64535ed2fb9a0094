import Sokoban.Proofs.Board.Cells
import Sokoban.Proofs.Result
import Sokoban.Proofs.Text.Rows

/-!
# What is read from a drawing

The rows of a drawing show a board if they are rows of glyphs, all as long as the first of them. If
they do not, the first row at fault decides the error, and in that row the first character that is
no glyph comes before a wrong length. `Board.Reads` says this without the reader.
-/

namespace Sokoban

namespace Tile

def glyphs : List Char := ['#', '_', '$', '@', '.', '*', '+']

variable {c : Char} {line : List Char}

theorem glyphs_eq : glyphs = all.map glyph := rfl

theorem mem_glyphs_iff : c ∈ glyphs ↔ ∃ t : Tile, t.glyph = c := by
  rw [glyphs_eq, List.mem_map]
  refine exists_congr fun t => and_iff_right ?_
  cases t <;> simp [all]

theorem ofGlyph?_eq_none_iff : ofGlyph? c = none ↔ c ∉ glyphs := by
  rw [mem_glyphs_iff, Option.eq_none_iff_forall_ne_some, not_exists]
  refine forall_congr' fun t => not_congr ?_
  rw [ofGlyph?_eq_some_iff, eq_comm]

theorem glyph_injective {s t : Tile} (h : s.glyph = t.glyph) : s = t := by
  have hs := ofGlyph?_glyph s
  rw [h, ofGlyph?_glyph] at hs
  exact (Option.some.inj hs).symm

theorem isBlank_glyph (t : Tile) : Text.isBlank t.glyph = false := by
  cases t <;> decide

theorem hasKeeper_iff {t : Tile} : t.hasKeeper = true ↔ t.glyph = '@' ∨ t.glyph = '+' := by
  cases t <;> decide

theorem exists_map_glyph (h : ∀ c ∈ line, c ∈ glyphs) :
    ∃ tiles : List Tile, line = tiles.map glyph := by
  induction line with
  | nil => exact ⟨[], rfl⟩
  | cons c rest ih =>
      obtain ⟨hc, hrest⟩ := List.forall_mem_cons.1 h
      obtain ⟨t, rfl⟩ := mem_glyphs_iff.1 hc
      obtain ⟨tiles, rfl⟩ := ih hrest
      exact ⟨t :: tiles, rfl⟩

end Tile

namespace Board

variable {b : Board} {rows before after : List (List Char)}

/-! ## Reading rows of glyphs -/

theorem readTiles_append (row col : Nat) (tiles : List Tile) (rest : List Char) :
    readTiles row col (tiles.map Tile.glyph ++ rest) =
      (readTiles row (col + tiles.length) rest).map (tiles ++ ·) := by
  induction tiles generalizing col with
  | nil =>
      cases h : readTiles row col rest <;> simp [h, Except.map]
  | cons t more ih =>
      have hcol : col + 1 + more.length = col + (t :: more).length := by
        rw [List.length_cons]
        omega
      rw [List.map_cons, List.cons_append, readTiles, Tile.ofGlyph?_glyph]
      dsimp only
      rw [ih (col + 1), hcol]
      cases readTiles row (col + (t :: more).length) rest <;> rfl

theorem readTiles_glyphs (row col : Nat) (tiles : List Tile) :
    readTiles row col (tiles.map Tile.glyph) = .ok tiles := by
  have h := readTiles_append row col tiles []
  rw [List.append_nil] at h
  rw [h]
  exact congrArg Except.ok (List.append_nil tiles)

theorem readTiles_unknown (row col : Nat) (tiles : List Tile) {c : Char} (hc : c ∉ Tile.glyphs)
    (rest : List Char) : readTiles row col (tiles.map Tile.glyph ++ c :: rest) =
      Result.fail (.unknownGlyph row (col + tiles.length) c) := by
  rw [readTiles_append, readTiles, Tile.ofGlyph?_eq_none_iff.2 hc]
  rfl

theorem readRows_append {width : Nat} (tiles : List (List Tile))
    (h : ∀ r ∈ tiles, r.length = width) (row : Nat) (rest : List (List Char)) :
    readRows width row (tiles.map (·.map Tile.glyph) ++ rest) =
      (readRows width (row + tiles.length) rest).map fun more =>
        ⟨tiles ++ more.1, List.forall_mem_append.2 ⟨h, more.2⟩⟩ := by
  induction tiles generalizing row with
  | nil =>
      cases hrest : readRows width row rest <;> simp [hrest, Except.map]
  | cons r more ih =>
      obtain ⟨hr, hmore⟩ := List.forall_mem_cons.1 h
      have hrow : row + 1 + more.length = row + (r :: more).length := by
        rw [List.length_cons]
        omega
      rw [List.map_cons, List.cons_append, readRows, readTiles_glyphs, Result.ok_bind, dif_pos hr,
        ih hmore (row + 1), hrow]
      cases readRows width (row + (r :: more).length) rest <;> rfl

theorem readRows_glyphs {width : Nat} (tiles : List (List Tile))
    (h : ∀ r ∈ tiles, r.length = width) (row : Nat) :
    readRows width row (tiles.map (·.map Tile.glyph)) = .ok ⟨tiles, h⟩ := by
  have hread := readRows_append tiles h row []
  rw [List.append_nil] at hread
  rw [hread]
  exact congrArg Except.ok (Subtype.ext (List.append_nil tiles))

/-! ## Boards and their rows -/

theorem eq_of_rows {b c : Board} (hrows : b.rows = c.rows) (hwidth : b.width = c.width) :
    b = c := by
  cases b
  cases c
  obtain rfl : _ = _ := hrows
  obtain rfl : _ = _ := hwidth
  rfl

def glyphRows (b : Board) : List (List Char) := b.rows.map (·.map Tile.glyph)

theorem rows_ne_nil (h : rows = b.glyphRows) (hne : rows ≠ []) : b.rows ≠ [] := by
  intro hnil
  rw [h, glyphRows, hnil] at hne
  exact hne rfl

def expectedLength (rows : List (List Char)) : Nat := (rows.headD []).length

theorem expectedLength_glyphRows (h : b.rows ≠ []) : expectedLength b.glyphRows = b.width := by
  obtain ⟨row, rest, hrows⟩ := List.exists_cons_of_ne_nil h
  have hrow := b.rectangular row (hrows ▸ List.mem_cons_self)
  unfold expectedLength glyphRows
  rw [hrows, List.map_cons, List.headD_cons, List.length_map, hrow]

theorem ofDrawnRows_glyphRows (h : b.rows ≠ []) : ofDrawnRows b.glyphRows = .ok b := by
  have hread : readRows (expectedLength b.glyphRows) 0 b.glyphRows =
      .ok ⟨b.rows, fun r hr => (b.rectangular r hr).trans (expectedLength_glyphRows h).symm⟩ :=
    readRows_glyphs b.rows _ 0
  have hne : b.glyphRows.isEmpty = false := by simpa [glyphRows] using h
  have hwidth := expectedLength_glyphRows h
  unfold expectedLength at hread hwidth
  unfold ofDrawnRows
  dsimp only
  rw [hread, Result.ok_bind, if_neg (by simp [hne])]
  exact congrArg Except.ok (eq_of_rows rfl hwidth)

theorem parse_of_drawnRows {drawing : String} (h : drawnRows drawing = b.glyphRows)
    (hne : b.rows ≠ []) : parse drawing =
      if b.keepers.isEmpty then Result.fail (.board .noKeeper) else .ok b := by
  unfold parse
  rw [h, ofDrawnRows_glyphRows hne]
  rfl

theorem keepers_ne_nil_iff : b.keepers ≠ [] ↔ ∃ row ∈ b.glyphRows, '@' ∈ row ∨ '+' ∈ row := by
  constructor
  · intro h
    obtain ⟨p, hp⟩ := List.exists_mem_of_ne_nil _ h
    obtain ⟨t, ht, hkeeper⟩ := mem_positions_iff.1 hp
    obtain ⟨row, hrow, hcol⟩ := get?_eq_some_iff.1 ht
    have hglyph : t.glyph ∈ row.map Tile.glyph := List.mem_map_of_mem (List.mem_of_getElem? hcol)
    refine ⟨_, List.mem_map_of_mem (List.mem_of_getElem? hrow), ?_⟩
    rcases Tile.hasKeeper_iff.1 hkeeper with h | h
    · exact .inl (h ▸ hglyph)
    · exact .inr (h ▸ hglyph)
  · rintro ⟨_, hdrawn, hkeeper⟩
    obtain ⟨row, hrow, rfl⟩ := List.mem_map.1 hdrawn
    have ht : ∃ t ∈ row, t.hasKeeper = true := by
      rcases hkeeper with h | h
      · obtain ⟨t, ht, hglyph⟩ := List.mem_map.1 h
        exact ⟨t, ht, Tile.hasKeeper_iff.2 (.inl hglyph)⟩
      · obtain ⟨t, ht, hglyph⟩ := List.mem_map.1 h
        exact ⟨t, ht, Tile.hasKeeper_iff.2 (.inr hglyph)⟩
    obtain ⟨t, ht, hkeeper⟩ := ht
    obtain ⟨i, hi⟩ := List.getElem?_of_mem hrow
    obtain ⟨j, hj⟩ := List.getElem?_of_mem ht
    have hmem : (⟨i, j⟩ : Pos) ∈ b.keepers :=
      mem_positions_iff.2 ⟨t, get?_eq_some_iff.2 ⟨row, hi, hj⟩, hkeeper⟩
    exact List.ne_nil_of_mem hmem

/-! ## What rows say of a board -/

structure IsRow (rows : List (List Char)) (row : List Char) : Prop where
  glyphs : ∀ c ∈ row, c ∈ Tile.glyphs
  length : row.length = expectedLength rows

/-- A board is what rows show, cell by cell. -/
structure ShownBy (b : Board) (rows : List (List Char)) : Prop where
  height : b.height = rows.length
  width : b.width = expectedLength rows
  cell : ∀ i j t, b.get? ⟨i, j⟩ = some t ↔ ∃ row, rows[i]? = some row ∧ row[j]? = some t.glyph

/-- An answer that is an error, which nothing else caused and which is worded in some way. -/
structure Refuses {α : Type} (answer : Result α) (issue : Issue) (message : String) : Prop where
  fails : answer = Result.fail issue
  message : issue.message = message

/-- The answer that rows deserve. The cases exclude each other and leave none out. -/
inductive Reads (rows : List (List Char)) (answer : Result Board) : Prop
  | unknownGlyph (before after : List (List Char)) (left right : List Char) (c : Char)
      (hrows : rows = before ++ (left ++ c :: right) :: after)
      (hbefore : ∀ row ∈ before, IsRow rows row) (hleft : ∀ d ∈ left, d ∈ Tile.glyphs)
      (hc : c ∉ Tile.glyphs)
      (hanswer : Refuses answer (.unknownGlyph before.length left.length c)
        ("unknown glyph " ++ quoted (String.singleton c) ++ " @" ++ toString before.length ++ ":" ++
          toString left.length))
  | rowLength (before after : List (List Char)) (line : List Char)
      (hrows : rows = before ++ line :: after) (hbefore : ∀ row ∈ before, IsRow rows row)
      (hline : ∀ d ∈ line, d ∈ Tile.glyphs) (hlength : line.length ≠ expectedLength rows)
      (hanswer : Refuses answer
        (.board (.rowLength before.length line.length (expectedLength rows)))
        ("malformed board: " ++ ("row " ++ toString before.length ++ " has length " ++
          toString line.length ++ ", expected " ++ toString (expectedLength rows))))
  | noRow (hrows : rows = [])
      (hanswer : Refuses answer (.board .noRow) "malformed board: empty board")
  | noKeeper (hne : rows ≠ []) (hrows : ∀ row ∈ rows, IsRow rows row)
      (hkeeper : ∀ row ∈ rows, '@' ∉ row ∧ '+' ∉ row)
      (hanswer : Refuses answer (.board .noKeeper) "malformed board: no keeper on the board")
  | board (b : Board) (hne : rows ≠ []) (hrows : ∀ row ∈ rows, IsRow rows row)
      (hkeeper : ∃ row ∈ rows, '@' ∈ row ∨ '+' ∈ row) (hshown : b.ShownBy rows)
      (hanswer : answer = .ok b)

theorem exists_tileRows {lines : List (List Char)} (h : ∀ row ∈ lines, IsRow rows row) :
    ∃ tiles : List (List Tile), lines = tiles.map (·.map Tile.glyph) ∧
      ∀ r ∈ tiles, r.length = expectedLength rows := by
  induction lines with
  | nil => exact ⟨[], rfl, List.forall_mem_nil _⟩
  | cons line rest ih =>
      obtain ⟨hline, hrest⟩ := List.forall_mem_cons.1 h
      obtain ⟨tiles, rfl⟩ := Tile.exists_map_glyph hline.glyphs
      obtain ⟨more, rfl, hmore⟩ := ih hrest
      refine ⟨tiles :: more, rfl, List.forall_mem_cons.2 ⟨?_, hmore⟩⟩
      rw [← hline.length, List.length_map]

theorem exists_glyphRows (h : ∀ row ∈ rows, IsRow rows row) : ∃ b : Board, rows = b.glyphRows := by
  obtain ⟨tiles, htiles, hlength⟩ := exists_tileRows h
  exact ⟨⟨tiles, _, hlength⟩, htiles⟩

theorem shownBy_glyphRows (hne : b.rows ≠ []) : b.ShownBy b.glyphRows where
  height := (List.length_map _).symm
  width := (expectedLength_glyphRows hne).symm
  cell := by
    intro i j t
    unfold glyphRows
    rw [get?_eq_some_iff, List.getElem?_map]
    cases b.rows[i]? with
    | none => simp
    | some row =>
        simp only [Option.some.injEq, exists_eq_left', Option.map_some, List.getElem?_map,
          Option.map_eq_some_iff]
        constructor
        · exact fun ht => ⟨t, ht, rfl⟩
        · rintro ⟨u, hu, hglyph⟩
          exact Tile.glyph_injective hglyph ▸ hu

/-- Rows of glyphs show one board only. -/
theorem ShownBy.eq_glyphRows (h : b.ShownBy rows) (hrows : ∀ row ∈ rows, IsRow rows row) :
    rows = b.glyphRows := by
  refine List.ext_getElem (by rw [glyphRows, List.length_map]; exact h.height.symm) ?_
  intro i hi hi'
  have hrow : rows[i]? = some rows[i] := List.getElem?_eq_getElem hi
  have hi'' : i < b.rows.length := by simpa [glyphRows] using hi'
  have hbrow : b.rows[i]? = some b.rows[i] := List.getElem?_eq_getElem hi''
  have hcell := h.cell i
  simp only [get?_eq_some_iff, hrow, hbrow, Option.some.injEq, exists_eq_left'] at hcell
  simp only [glyphRows, List.getElem_map]
  refine List.ext_getElem? fun j => Option.ext fun c => ?_
  rw [List.getElem?_map, Option.map_eq_some_iff]
  constructor
  · intro hc
    have hglyph := (hrows _ (List.getElem_mem hi)).glyphs c (List.mem_of_getElem? hc)
    obtain ⟨t, rfl⟩ := Tile.mem_glyphs_iff.1 hglyph
    exact ⟨t, (hcell j t).2 hc, rfl⟩
  · rintro ⟨t, ht, rfl⟩
    exact (hcell j t).1 ht

/-! ## The reader answers as the rows deserve -/

/-- After rows like the first, a line that is refused decides the answer. -/
theorem parse_refused {drawing : String} {line : List Char} {e : Fault}
    (hrows : drawnRows drawing = before ++ line :: after)
    (hbefore : ∀ row ∈ before, IsRow (drawnRows drawing) row)
    (hline : readRows (expectedLength (drawnRows drawing)) before.length (line :: after) =
      .error e) : parse drawing = .error e := by
  obtain ⟨tiles, rfl, hlength⟩ := exists_tileRows hbefore
  have hread : readRows (expectedLength (drawnRows drawing)) 0 (drawnRows drawing) =
      .error e := by
    rw [List.length_map] at hline
    generalize expectedLength (drawnRows drawing) = width at hline hlength
    rw [hrows, readRows_append tiles hlength, Nat.zero_add, hline]
    rfl
  unfold expectedLength at hread
  unfold parse ofDrawnRows
  dsimp only
  rw [hread]
  rfl

theorem Reads.parse_eq {drawing : String} {answer : Result Board}
    (h : Reads (drawnRows drawing) answer) : parse drawing = answer := by
  cases h with
  | unknownGlyph before after left right c hrows hbefore hleft hc hanswer =>
      rw [hanswer.fails]
      refine parse_refused hrows hbefore ?_
      obtain ⟨tiles, rfl⟩ := Tile.exists_map_glyph hleft
      rw [readRows, readTiles_unknown _ _ tiles hc, List.length_map, Nat.zero_add]
      rfl
  | rowLength before after line hrows hbefore hline hlength hanswer =>
      rw [hanswer.fails]
      refine parse_refused hrows hbefore ?_
      obtain ⟨tiles, rfl⟩ := Tile.exists_map_glyph hline
      rw [List.length_map] at hlength ⊢
      rw [readRows, readTiles_glyphs, Result.ok_bind, dif_neg hlength]
      rfl
  | noRow hrows hanswer =>
      rw [hanswer.fails]
      unfold parse
      rw [hrows]
      rfl
  | noKeeper hne hrows hkeeper hanswer =>
      obtain ⟨b, hb⟩ := exists_glyphRows hrows
      have hrows' := rows_ne_nil hb hne
      have hnone : b.keepers = [] := by
        refine Decidable.byContradiction fun hsome => ?_
        obtain ⟨row, hrow, hglyph⟩ := keepers_ne_nil_iff.1 hsome
        have hnot := hkeeper row (hb ▸ hrow)
        exact hglyph.elim hnot.1 hnot.2
      rw [hanswer.fails, parse_of_drawnRows hb hrows', hnone]
      rfl
  | board b hne hrows hkeeper hshown hanswer =>
      have hb := hshown.eq_glyphRows hrows
      have hrows' := rows_ne_nil hb hne
      have hsome : b.keepers.isEmpty = false := by
        simpa using keepers_ne_nil_iff.2 (hb ▸ hkeeper)
      rw [hanswer, parse_of_drawnRows hb hrows', hsome]
      rfl

theorem exists_reads (rows : List (List Char)) : ∃ answer, Reads rows answer := by
  by_cases hne : rows = []
  · exact ⟨_, .noRow hne ⟨rfl, rfl⟩⟩
  by_cases hrows : ∀ row ∈ rows, IsRow rows row
  · obtain ⟨b, hb⟩ := exists_glyphRows hrows
    have hrows' := rows_ne_nil hb hne
    by_cases hkeeper : ∃ row ∈ rows, '@' ∈ row ∨ '+' ∈ row
    · exact ⟨_, .board b hne hrows hkeeper (hb ▸ shownBy_glyphRows hrows') rfl⟩
    · refine ⟨_, .noKeeper hne hrows (fun row hrow => ?_) ⟨rfl, rfl⟩⟩
      exact not_or.1 fun h => hkeeper ⟨row, hrow, h⟩
  · obtain ⟨before, line, after, hsplit, hbefore, hline⟩ := Result.exists_first hrows
    by_cases hglyphs : ∀ c ∈ line, c ∈ Tile.glyphs
    · have hlength : line.length ≠ expectedLength rows := fun h => hline ⟨hglyphs, h⟩
      exact ⟨_, .rowLength before after line hsplit hbefore hglyphs hlength ⟨rfl, rfl⟩⟩
    · obtain ⟨left, c, right, rfl, hleft, hc⟩ := Result.exists_first hglyphs
      exact ⟨_, .unknownGlyph before after left right c hsplit hbefore hleft hc ⟨rfl, rfl⟩⟩

theorem reads_parse (drawing : String) : Reads (drawnRows drawing) (parse drawing) := by
  obtain ⟨answer, h⟩ := exists_reads (drawnRows drawing)
  rwa [h.parse_eq]

/-- Reading a drawing answers what its rows deserve, and nothing else: the board that they show, or
the error of the first fault in them. -/
theorem parse_eq_iff_reads (drawing : String) (answer : Result Board) :
    parse drawing = answer ↔ Reads (drawnRows drawing) answer := by
  constructor
  · rintro rfl
    exact reads_parse drawing
  · exact Reads.parse_eq

end Board

end Sokoban
