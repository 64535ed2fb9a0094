import Sokoban.Board.Basic

/-!
# The cells of a board

The list `Board.cells` holds every position of the board once, with its tile, in row-major order.
So the lists selected from it are row-major without repetition, and membership in them is a
statement about `Board.get?`.
-/

namespace Sokoban.Board

theorem get?_eq_some_iff {b : Board} {p : Pos} {t : Tile} :
    b.get? p = some t ↔ ∃ row, b.rows[p.row]? = some row ∧ row[p.col]? = some t := by
  simp [get?, Option.bind_eq_some_iff]

theorem lt_of_get? {b : Board} {p : Pos} {t : Tile} (h : b.get? p = some t) :
    p.row < b.height ∧ p.col < b.width := by
  obtain ⟨row, hrow, hcol⟩ := get?_eq_some_iff.1 h
  obtain ⟨hr, rfl⟩ := List.getElem?_eq_some_iff.1 hrow
  obtain ⟨hc, -⟩ := List.getElem?_eq_some_iff.1 hcol
  rw [b.rectangular _ (List.getElem_mem hr)] at hc
  exact ⟨hr, hc⟩

theorem mem_cells_iff {b : Board} {p : Pos} {t : Tile} :
    (p, t) ∈ b.cells ↔ b.get? p = some t := by
  rw [get?_eq_some_iff]
  simp only [cells, List.mem_flatMap, List.mem_map, Prod.exists, List.mk_mem_zipIdx_iff_getElem?,
    Prod.mk.injEq]
  constructor
  · rintro ⟨row, i, hi, u, j, hj, rfl, rfl⟩
    exact ⟨row, hi, hj⟩
  · rintro ⟨row, hi, hj⟩
    exact ⟨row, p.row, hi, t, p.col, hj, rfl, rfl⟩

private theorem pairwise_zipIdx {α : Type} (l : List α) (k : Nat) :
    (l.zipIdx k).Pairwise fun x y => x.2 < y.2 := by
  induction l generalizing k with
  | nil => simp
  | cons a rest ih =>
      rw [List.zipIdx_cons]
      refine List.pairwise_cons.2 ⟨fun x hx => ?_, ih (k + 1)⟩
      have := List.le_snd_of_mem_zipIdx hx
      show k < x.2
      omega

/-- Cells are listed in row-major order, each once. -/
theorem pairwise_cells (b : Board) : b.cells.Pairwise fun c d => c.1 < d.1 := by
  unfold cells
  rw [List.pairwise_flatMap]
  constructor
  · rintro ⟨row, i⟩ -
    rw [List.pairwise_map]
    refine (pairwise_zipIdx row 0).imp ?_
    rintro ⟨t, j⟩ ⟨u, k⟩ h
    exact Pos.lt_iff.2 (Or.inr ⟨rfl, h⟩)
  · refine (pairwise_zipIdx b.rows 0).imp ?_
    rintro ⟨row, i⟩ ⟨row', i'⟩ h ⟨p, t⟩ hp ⟨q, u⟩ hq
    simp only [List.mem_map, Prod.exists, Prod.mk.injEq] at hp hq
    obtain ⟨_, _, _, rfl, _⟩ := hp
    obtain ⟨_, _, _, rfl, _⟩ := hq
    exact Pos.lt_iff.2 (Or.inl h)

theorem mem_positions_iff {b : Board} {test : Tile → Bool} {p : Pos} :
    p ∈ b.positions test ↔ ∃ t, b.get? p = some t ∧ test t = true := by
  simp [positions, mem_cells_iff]

theorem pairwise_positions (b : Board) (test : Tile → Bool) :
    (b.positions test).Pairwise (· < ·) :=
  List.pairwise_map.2 (b.pairwise_cells.filter _)

theorem nodup_positions (b : Board) (test : Tile → Bool) : (b.positions test).Nodup :=
  (b.pairwise_positions test).imp Pos.ne_of_lt

theorem isFree_iff {b : Board} {p : Pos} :
    b.isFree p = true ↔ ∃ t, b.get? p = some t ∧ t.isWall = false := by
  unfold isFree
  cases b.get? p with
  | none => simp
  | some t => simp

theorem isPassable_iff {b : Board} {p : Pos} :
    b.isPassable p = true ↔ ∃ t, b.get? p = some t ∧ t.isPassable = true := by
  unfold isPassable
  cases b.get? p with
  | none => simp
  | some t => simp

theorem mem_passable_iff {b : Board} {p : Pos} :
    p ∈ b.passable ↔ b.isPassable p = true := by
  rw [passable, mem_positions_iff, isPassable_iff]

theorem isFree_of_isPassable {b : Board} {p : Pos} (h : b.isPassable p = true) :
    b.isFree p = true := by
  obtain ⟨t, ht, hp⟩ := isPassable_iff.1 h
  refine isFree_iff.2 ⟨t, ht, ?_⟩
  cases t <;> first | rfl | contradiction

/-- A cell drawn with a box is never passable, whatever happens to the box. -/
theorem not_isPassable_of_mem_boxes {b : Board} {p : Pos} (h : p ∈ b.boxes) :
    b.isPassable p ≠ true := by
  obtain ⟨t, ht, hbox⟩ := mem_positions_iff.1 h
  intro hp
  obtain ⟨u, hu, hpass⟩ := isPassable_iff.1 hp
  rw [ht] at hu
  obtain rfl := Option.some.inj hu
  cases t <;> simp [Tile.hasBox, Tile.isPassable, Tile.isWall] at hbox hpass

theorem isFree_of_mem_goals {b : Board} {p : Pos} (h : p ∈ b.goals) : b.isFree p = true := by
  obtain ⟨t, ht, hgoal⟩ := mem_positions_iff.1 h
  refine isFree_iff.2 ⟨t, ht, ?_⟩
  cases t <;> first | rfl | contradiction

end Sokoban.Board
