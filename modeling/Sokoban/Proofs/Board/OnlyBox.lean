import Sokoban.Proofs.Board.Ahead

/-!
# A board with a single box

`Board.keepOnly` takes every drawn box but one off the board. Nothing else about the board changes:
the same cells are free, and all cells that were passable still are.
-/

namespace Sokoban

/-- The tile that is left when a box is taken away. -/
def Tile.vacated : Tile → Tile
  | box => floor
  | boxOnGoal => goal
  | wall => wall
  | floor => floor
  | keeper => keeper
  | goal => goal
  | keeperOnGoal => keeperOnGoal

theorem Tile.isWall_vacated (t : Tile) : t.vacated.isWall = t.isWall := by
  cases t <;> rfl

theorem Tile.isPassable_vacated {t : Tile} (h : t.isPassable = true) :
    t.vacated.isPassable = true := by
  revert h
  cases t <;> decide

namespace Board

def keepOnly (b : Board) (kept : Pos) : Board where
  rows := b.rows.mapIdx fun i row =>
    row.mapIdx fun j t => if (⟨i, j⟩ : Pos) = kept then t else t.vacated
  width := b.width
  rectangular := by
    intro row hrow
    obtain ⟨i, hi, rfl⟩ := List.mem_mapIdx.1 hrow
    rw [List.length_mapIdx]
    exact b.rectangular _ (List.getElem_mem hi)

variable {b : Board} {kept p : Pos}

theorem get?_keepOnly (b : Board) (kept p : Pos) :
    (b.keepOnly kept).get? p = (b.get? p).map fun t => if p = kept then t else t.vacated := by
  unfold get? keepOnly
  cases hrow : b.rows[p.row]? with
  | none => simp [hrow]
  | some row => simp [hrow, List.getElem?_mapIdx]

theorem get?_keepOnly_self (b : Board) (p : Pos) : (b.keepOnly p).get? p = b.get? p := by
  simp [get?_keepOnly]

theorem get?_keepOnly_of_ne (b : Board) (h : p ≠ kept) :
    (b.keepOnly kept).get? p = (b.get? p).map Tile.vacated := by
  simp [get?_keepOnly, h]

theorem height_keepOnly (b : Board) (kept : Pos) : (b.keepOnly kept).height = b.height :=
  List.length_mapIdx

theorem Fits.keepOnly (hb : b.Fits) (kept : Pos) : (b.keepOnly kept).Fits where
  height := by
    rw [height_keepOnly]
    exact hb.height
  width := hb.width

theorem ahead_keepOnly (b : Board) (kept p : Pos) (d : Direction) (n : Nat) :
    (b.keepOnly kept).ahead p d n = b.ahead p d n := by
  unfold ahead
  rw [height_keepOnly]
  rfl

theorem isFree_keepOnly (b : Board) (kept p : Pos) : (b.keepOnly kept).isFree p = b.isFree p := by
  unfold isFree
  rw [get?_keepOnly]
  cases b.get? p with
  | none => rfl
  | some t =>
      by_cases h : p = kept
      · simp [h]
      · simp [h, Tile.isWall_vacated]

theorem isPassable_keepOnly (h : b.isPassable p = true) :
    (b.keepOnly kept).isPassable p = true := by
  obtain ⟨t, ht, hpassable⟩ := isPassable_iff.1 h
  refine isPassable_iff.2 ⟨_, by rw [get?_keepOnly, ht]; rfl, ?_⟩
  split
  · exact hpassable
  · exact Tile.isPassable_vacated hpassable

theorem mem_boxes_keepOnly (h : p ∈ b.boxes) : p ∈ (b.keepOnly p).boxes := by
  obtain ⟨t, ht, hbox⟩ := mem_positions_iff.1 h
  exact mem_positions_iff.2 ⟨t, by rw [get?_keepOnly_self, ht], hbox⟩

end Board

end Sokoban
