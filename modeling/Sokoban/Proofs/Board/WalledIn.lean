import Sokoban.Proofs.Model.Carried

/-!
# Boards with walls around them

Rows and columns of walls may be added on each side of a board. The larger board shows the board in
places that are farther down and to the right, and nothing but walls besides.
-/

namespace Sokoban

def padded {α : Type} (x : α) (before after : Nat) (l : List α) : List α :=
  List.replicate before x ++ (l ++ List.replicate after x)

variable {before after : Nat}

theorem length_padded {α : Type} (x : α) (l : List α) :
    (padded x before after l).length = before + l.length + after := by
  simp [padded, Nat.add_assoc]

/-- What was not added stands in the list itself. -/
theorem getElem?_padded_eq_some_iff {α : Type} {x y : α} (hne : y ≠ x) {l : List α} {i : Nat} :
    (padded x before after l)[i]? = some y ↔ ∃ k, l[k]? = some y ∧ i = k + before := by
  have hadded : ∀ n k : Nat, (List.replicate n x)[k]? ≠ some y := by
    intro n k h
    exact hne (List.eq_of_mem_replicate (List.mem_of_getElem? h))
  constructor
  · intro h
    by_cases hbefore : i < before
    · unfold padded at h
      rw [List.getElem?_append_left (by simpa using hbefore)] at h
      exact absurd h (hadded before i)
    · obtain ⟨k, rfl⟩ : ∃ k, i = k + before := ⟨i - before, by omega⟩
      refine ⟨k, ?_, rfl⟩
      unfold padded at h
      rw [List.getElem?_append_right (by simp), List.length_replicate, Nat.add_sub_cancel] at h
      by_cases hlength : k < l.length
      · rwa [List.getElem?_append_left hlength] at h
      · rw [List.getElem?_append_right (by omega)] at h
        exact absurd h (hadded after _)
  · rintro ⟨k, hk, rfl⟩
    have hlength : k < l.length := (List.getElem?_eq_some_iff.1 hk).1
    unfold padded
    rw [List.getElem?_append_right (by simp), List.length_replicate, Nat.add_sub_cancel,
      List.getElem?_append_left hlength, hk]

namespace Board

variable {above below left right : Nat}

/-- The board with rows of walls above and below it and columns of walls to the left and to the
right. -/
def walledIn (b : Board) (above below left right : Nat) : Board :=
  ⟨padded (List.replicate (left + b.width + right) .wall) above below
      (b.rows.map (padded .wall left right)), left + b.width + right, by
    intro row hrow
    simp only [padded, List.mem_append, List.mem_replicate, List.mem_map] at hrow
    obtain ⟨-, rfl⟩ | ⟨row, hrow, rfl⟩ | ⟨-, rfl⟩ := hrow
    · exact List.length_replicate
    · rw [← b.rectangular row hrow]
      exact length_padded _ row
    · exact List.length_replicate⟩

/-- Whatever is no wall is on the board itself. -/
theorem get?_walledIn_eq_some_iff {b : Board} {q : Pos} {t : Tile} (ht : t.isWall = false) :
    (b.walledIn above below left right).get? q = some t ↔
      ∃ p, b.get? p = some t ∧ q = ⟨p.row + above, p.col + left⟩ := by
  have hwall : t ≠ .wall := by
    rintro rfl
    cases ht
  have hrows : ∀ row : List Tile, t ∈ row →
      row ≠ List.replicate (left + b.width + right) .wall := by
    rintro row hmem rfl
    exact hwall (List.eq_of_mem_replicate hmem)
  rw [get?_eq_some_iff]
  constructor
  · rintro ⟨row, hrow, hcol⟩
    obtain ⟨i, hi, hqrow⟩ :=
      (getElem?_padded_eq_some_iff (hrows row (List.mem_of_getElem? hcol))).1 hrow
    rw [List.getElem?_map, Option.map_eq_some_iff] at hi
    obtain ⟨inner, hinner, rfl⟩ := hi
    obtain ⟨j, hj, hqcol⟩ := (getElem?_padded_eq_some_iff hwall).1 hcol
    exact ⟨⟨i, j⟩, get?_eq_some_iff.2 ⟨inner, hinner, hj⟩, by rw [← hqrow, ← hqcol]⟩
  · rintro ⟨p, hp, rfl⟩
    obtain ⟨inner, hinner, hcol⟩ := get?_eq_some_iff.1 hp
    have hmem : (padded Tile.wall left right inner)[p.col + left]? = some t :=
      (getElem?_padded_eq_some_iff hwall).2 ⟨p.col, hcol, rfl⟩
    refine ⟨padded .wall left right inner, ?_, hmem⟩
    refine (getElem?_padded_eq_some_iff (hrows _ (List.mem_of_getElem? hmem))).2
      ⟨p.row, ?_, rfl⟩
    rw [List.getElem?_map, hinner]
    rfl

end Board

def GridMap.shift (rows cols : Nat) : GridMap where
  place := ⟨fun p => ⟨p.row + rows, p.col + cols⟩, by
    intro p q h
    cases p
    cases q
    simpa using h⟩
  turn := .refl Direction

theorem GridMap.shift_carries (b : Board) (above below left right : Nat) :
    (shift above left).Carries b (b.walledIn above below left right) where
  tile := by
    intro p t ht
    rw [Board.get?_walledIn_eq_some_iff ht]
    constructor
    · rintro ⟨q, hq, hplace⟩
      exact (shift above left).place.injective hplace ▸ hq
    · exact fun hp => ⟨p, hp, rfl⟩
  covers := by
    intro q hq
    obtain ⟨t, ht, hwall⟩ := Board.isFree_iff.1 hq
    obtain ⟨p, -, rfl⟩ := (Board.get?_walledIn_eq_some_iff hwall).1 ht
    exact ⟨p, rfl⟩
  ahead := by
    intro p q d n _ _
    have hplace : ∀ r, (shift above left).place r = ⟨r.row + above, r.col + left⟩ := fun _ => rfl
    have hturn : (shift above left).turn d = d := rfl
    rw [hplace, hplace, hturn]
    constructor
    · rintro ⟨hrow, hcol⟩
      cases d <;> simp only [Direction.delta] at hrow hcol <;> constructor <;>
        simp only [Direction.delta] <;> omega
    · rintro ⟨hrow, hcol⟩
      cases d <;> simp only [Direction.delta] at hrow hcol <;> constructor <;>
        simp only [Direction.delta] <;> omega

end Sokoban
