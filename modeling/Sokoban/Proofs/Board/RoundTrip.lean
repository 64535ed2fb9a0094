import Mathlib.Data.List.Basic
import Sokoban.Proofs.Board.Reading

/-!
# Boards written out and read again

The text of a board consists of the rows of the drawing from which it was read, and shows that board
again. So boards are equal exactly if their drawings have the same rows, and what leaves the rows of
a drawing as they are leaves the board as it is.
-/

namespace Sokoban.Board

variable {b : Board} {drawing : String}

/-- Everything about a drawing that counts for the board is its rows. -/
theorem parse_congr {other : String} (h : drawnRows other = drawnRows drawing) :
    parse other = parse drawing := by
  unfold parse
  rw [h]

theorem drawnRows_of_parse (h : parse drawing = .ok b) :
    drawnRows drawing = b.glyphRows ∧ b.rows ≠ [] ∧ b.keepers ≠ [] := by
  have hreads := reads_parse drawing
  rw [h] at hreads
  cases hreads with
  | unknownGlyph _ _ _ _ _ _ _ _ _ hanswer => cases hanswer.fails
  | rowLength _ _ _ _ _ _ _ hanswer => cases hanswer.fails
  | noRow _ hanswer => cases hanswer.fails
  | noKeeper _ _ _ hanswer => cases hanswer.fails
  | board c hne hrows hkeeper hshown hanswer =>
      cases hanswer
      have hglyphs := hshown.eq_glyphRows hrows
      exact ⟨hglyphs, rows_ne_nil hglyphs hne, keepers_ne_nil_iff.2 (hglyphs ▸ hkeeper)⟩

theorem parse_of_glyphRows (h : drawnRows drawing = b.glyphRows) (hrows : b.rows ≠ [])
    (hkeepers : b.keepers ≠ []) : parse drawing = .ok b := by
  rw [parse_of_drawnRows h hrows, if_neg (by simpa using hkeepers)]

theorem glyphRows_injective {c : Board} (hb : b.rows ≠ []) (hc : c.rows ≠ [])
    (h : b.glyphRows = c.glyphRows) : b = c := by
  refine eq_of_rows ?_ ?_
  · have hinjective : Function.Injective fun row : List Tile => row.map Tile.glyph :=
      List.map_injective_iff.2 fun _ _ => Tile.glyph_injective
    exact List.map_injective_iff.2 hinjective h
  · rw [← expectedLength_glyphRows hb, ← expectedLength_glyphRows hc, h]

/-- No row of a drawing is empty, so neither are the rows of the board. -/
theorem width_pos_of_parse (h : parse drawing = .ok b) : 1 ≤ b.width := by
  obtain ⟨hglyphs, hrows, -⟩ := drawnRows_of_parse h
  obtain ⟨row, hrow⟩ := List.exists_mem_of_ne_nil _ hrows
  have hdrawn : row.map Tile.glyph ∈ drawnRows drawing :=
    hglyphs ▸ List.mem_map_of_mem (f := fun row => row.map Tile.glyph) hrow
  have hne : row ≠ [] := by simpa using (List.mem_filter.1 hdrawn).2
  rw [← b.rectangular row hrow]
  exact List.length_pos_iff.2 hne

/-! ## The text of a board -/

theorem text_eq_intercalate (b : Board) :
    b.text = "\n".intercalate (b.glyphRows.map String.ofList) := by
  unfold text glyphRows
  rw [List.map_map]
  rfl

theorem drawnRows_text (hwidth : 1 ≤ b.width) : drawnRows b.text = b.glyphRows := by
  have hsolid : ∀ r ∈ b.glyphRows, r ≠ [] ∧ ∀ c ∈ r, Text.isBlank c = false := by
    refine List.forall_mem_map.2 fun row hrow => ⟨?_, ?_⟩
    · have hlength := b.rectangular row hrow
      refine List.ne_nil_of_length_pos ?_
      rw [List.length_map]
      omega
    · exact List.forall_mem_map.2 fun t _ => t.isBlank_glyph
  have hlist : b.text.toList = ['\n'].intercalate b.glyphRows := by
    rw [text_eq_intercalate, String.toList_intercalate, List.map_map]
    simp [Function.comp_def]
  have hrows := Text.rows_intercalate hsolid
  rw [← hlist] at hrows
  exact hrows

/-! ## Round trips -/

/-- How a board, its text and the drawing from which it was read belong together. -/
structure RoundTrips (b : Board) (drawing : String) : Prop where
  parse_text : parse b.text = .ok b
  height : 1 ≤ b.height
  width : 1 ≤ b.width
  rectangular : ∀ row ∈ b.rows, row.length = b.width
  keepers : b.keepers ≠ []
  text_eq : b.text = "\n".intercalate ((drawnRows drawing).map String.ofList)
  eq_iff : ∀ other c, parse other = .ok c → (b = c ↔ drawnRows drawing = drawnRows other)
  /-- Lines may end with a carriage return and a line feed. -/
  returns : parse (String.ofList (Text.withReturns drawing.toList)) = .ok b
  /-- White space may be added around lines, and blank lines between them. -/
  space : ∀ other : String,
    Relation.ReflTransGen Text.AddsSpace drawing.toList other.toList → parse other = .ok b

/-- Every drawing from which a board is read makes the round trip. -/
theorem roundTrips_of_parse (h : parse drawing = .ok b) : b.RoundTrips drawing := by
  obtain ⟨hglyphs, hrows, hkeepers⟩ := drawnRows_of_parse h
  have hwidth := width_pos_of_parse h
  have hsame : ∀ other : String, Text.rows other.toList = Text.rows drawing.toList →
      parse other = .ok b := fun other hother => (parse_congr hother).trans h
  exact
    { parse_text := parse_of_glyphRows (drawnRows_text hwidth) hrows hkeepers
      height := List.length_pos_iff.2 hrows
      width := hwidth
      rectangular := b.rectangular
      keepers := hkeepers
      text_eq := by rw [hglyphs, text_eq_intercalate]
      eq_iff := by
        intro other c hother
        obtain ⟨hglyphs', hrows', -⟩ := drawnRows_of_parse hother
        rw [hglyphs, hglyphs']
        exact ⟨congrArg glyphRows, glyphRows_injective hrows hrows'⟩
      returns := by
        refine hsame _ ?_
        rw [String.toList_ofList, Text.rows_withReturns]
      space := fun other hother => hsame other (Text.rows_eq_of_addsSpace hother) }

/-- Tabs, blank lines and mixed line ends around the rows of a corridor. -/
theorem roundTrips_of_corridor :
    ∃ b : Board, parse "\t@$.\r\n \n ###\n  " = .ok b ∧ b.RoundTrips "\t@$.\r\n \n ###\n  " ∧
      b.text = "@$.\n###" := by
  have hparse : parse "\t@$.\r\n \n ###\n  " =
      .ok ⟨[[.keeper, .box, .goal], [.wall, .wall, .wall]], 3, by decide⟩ := rfl
  exact ⟨_, hparse, roundTrips_of_parse hparse, rfl⟩

end Sokoban.Board
