import Sokoban.Board.Reading
import Sokoban.Proofs.Board.Ahead

/-!
# Boards that were read from drawings

A drawing has at least a byte for each character, a character for each row and each column of the
board that it shows. So a board whose drawing takes up less than half a word of bytes `Fits`.
-/

namespace Sokoban

namespace Text

theorem length_toList_le (s : String) : s.toList.length ≤ s.utf8ByteSize := by
  suffices h : ∀ l : List Char, l.length ≤ (String.ofList l).utf8ByteSize by
    have hs := h s.toList
    rwa [String.ofList_toList] at hs
  intro l
  induction l with
  | nil => simp
  | cons c rest ih =>
      have hsplit : String.ofList (c :: rest) = String.singleton c ++ String.ofList rest := by
        rw [← List.singleton_append, String.ofList_append, String.singleton_eq_ofList]
      have hpos := c.utf8Size_pos
      rw [hsplit, String.utf8ByteSize_append, String.utf8ByteSize_singleton, List.length_cons]
      omega

theorem length_trim_le (l : List Char) : (trim l).length ≤ l.length := by
  have hend : (trimEnd (l.dropWhile isBlank)).length ≤ (l.dropWhile isBlank).length := by
    unfold trimEnd
    rw [List.length_reverse]
    have hback := List.dropWhile_suffix isBlank (l := (l.dropWhile isBlank).reverse)
    have hlength := hback.length_le
    rwa [List.length_reverse] at hlength
  have hstart := List.IsSuffix.length_le (List.dropWhile_suffix isBlank (l := l))
  exact Nat.le_trans hend hstart

/-- Lines are made of the characters of the text, and each takes at least one of them. -/
theorem length_lines_le (l : List Char) :
    (lines l).length ≤ l.length ∧ ∀ line ∈ lines l, line.length ≤ l.length := by
  fun_induction lines l with
  | case1 => simp
  | case2 rest ih =>
      refine ⟨by simp only [List.length_cons]; omega, List.forall_mem_cons.2 ⟨Nat.zero_le _, ?_⟩⟩
      intro line hline
      have := ih.2 line hline
      simp only [List.length_cons]
      omega
  | case3 rest ih =>
      refine ⟨by simp only [List.length_cons]; omega, List.forall_mem_cons.2 ⟨Nat.zero_le _, ?_⟩⟩
      intro line hline
      have := ih.2 line hline
      simp only [List.length_cons]
      omega
  | case4 c rest _ _ hnil ih => simp
  | case5 c rest _ _ line more hcons ih =>
      rw [hcons] at ih
      obtain ⟨hcount, hlines⟩ := ih
      obtain ⟨hline, hmore⟩ := List.forall_mem_cons.1 hlines
      simp only [List.length_cons] at hcount ⊢
      refine ⟨by omega, List.forall_mem_cons.2 ⟨?_, fun other hother => ?_⟩⟩
      · simp only [List.length_cons]
        omega
      · have := hmore other hother
        omega

end Text

namespace Board

theorem length_drawnRows_le (drawing : String) :
    (drawnRows drawing).length ≤ drawing.utf8ByteSize ∧
      ∀ row ∈ drawnRows drawing, row.length ≤ drawing.utf8ByteSize := by
  have hbytes := Text.length_toList_le drawing
  obtain ⟨hcount, hlines⟩ := Text.length_lines_le drawing.toList
  constructor
  · have hfilter := List.length_filter_le (fun row : List Char => !row.isEmpty)
      ((Text.lines drawing.toList).map Text.trim)
    rw [List.length_map] at hfilter
    unfold drawnRows
    omega
  · intro row hrow
    obtain ⟨line, hline, rfl⟩ := List.mem_map.1 (List.mem_filter.1 hrow).1
    have htrim := Text.length_trim_le line
    have := hlines line hline
    omega

theorem length_readRows {width row : Nat} {lines : List (List Char)}
    {rows : { rows : List (List Tile) // ∀ r ∈ rows, r.length = width }}
    (h : readRows width row lines = .ok rows) : rows.1.length = lines.length := by
  induction lines generalizing row rows with
  | nil =>
      obtain rfl := Except.ok.inj h
      rfl
  | cons line rest ih =>
      unfold readRows at h
      obtain ⟨tiles, -, h⟩ := Result.bind_eq_ok.1 h
      split at h
      · obtain ⟨more, hmore, h⟩ := Result.bind_eq_ok.1 h
        obtain rfl := Except.ok.inj h
        simp [ih hmore]
      · cases h

theorem parse_eq_ok {drawing : String} {b : Board} (h : parse drawing = .ok b) :
    b.height = (drawnRows drawing).length ∧ b.width = ((drawnRows drawing).headD []).length ∧
      b.keepers ≠ [] := by
  unfold parse at h
  obtain ⟨b', hrows, h⟩ := Result.bind_eq_ok.1 h
  split at h
  · cases h
  · rename_i hkeepers
    obtain rfl := Except.ok.inj h
    unfold ofDrawnRows at hrows
    obtain ⟨rows, hread, hrows⟩ := Result.bind_eq_ok.1 hrows
    split at hrows
    · cases hrows
    · obtain rfl := Except.ok.inj hrows
      exact ⟨length_readRows hread, rfl, by simpa using hkeepers⟩

theorem answers_readTiles (row col : Nat) (line : List Char) :
    (readTiles row col line).Answers := by
  induction line generalizing col with
  | nil => exact Result.answers_ok _
  | cons c rest ih =>
      unfold readTiles
      split
      · exact Result.answers_fail _
      · exact (ih (col + 1)).bind fun _ => Result.answers_ok _

theorem answers_readRows (width row : Nat) (lines : List (List Char)) :
    (readRows width row lines).Answers := by
  induction lines generalizing row with
  | nil => exact Result.answers_ok _
  | cons line rest ih =>
      refine (answers_readTiles row 0 line).bind fun tiles => ?_
      split
      · exact (ih (row + 1)).bind fun _ => Result.answers_ok _
      · exact Result.answers_fail _

theorem answers_parse (drawing : String) : (parse drawing).Answers := by
  have hrows : (ofDrawnRows (drawnRows drawing)).Answers := by
    refine (answers_readRows _ _ _).bind fun rows => ?_
    split
    · exact Result.answers_fail _
    · exact Result.answers_ok _
  refine hrows.bind fun b => ?_
  split
  · exact Result.answers_fail _
  · exact Result.answers_ok _

/-- A board that was read from a drawing which takes up less than half a word of bytes. -/
def Drawn (b : Board) : Prop :=
  ∃ drawing : String, (drawing.utf8ByteSize : Int) < Word.half ∧ parse drawing = .ok b

theorem Drawn.fits {b : Board} (h : b.Drawn) : b.Fits := by
  obtain ⟨drawing, hsize, hparse⟩ := h
  obtain ⟨hheight, hwidth, -⟩ := parse_eq_ok hparse
  obtain ⟨hcount, hrows⟩ := length_drawnRows_le drawing
  have hhead : ((drawnRows drawing).headD []).length ≤ drawing.utf8ByteSize := by
    cases hd : drawnRows drawing with
    | nil => exact Nat.zero_le _
    | cons row rest => exact hrows row (hd ▸ List.mem_cons_self)
  constructor
  · rw [hheight]
    omega
  · rw [hwidth]
    omega

end Board

end Sokoban
