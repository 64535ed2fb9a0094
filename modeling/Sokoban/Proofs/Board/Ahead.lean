import Sokoban.Model.Legal
import Sokoban.Proofs.Board.Cells
import Sokoban.Proofs.Result

/-!
# Shifts are exact

`Board.shift` reckons in machine words. `Board.ahead` is the same cell reckoned in whole numbers. On
a board whose sides are less than half a word the two agree wherever rules are looked for: one
step from any cell, and two steps from a cell whose neighbour is on the board.
-/

namespace Sokoban

/-- A position lies a number of steps from another one in a direction. -/
structure Pos.Ahead (p : Pos) (d : Direction) (n : Nat) (q : Pos) : Prop where
  row : (q.row : Int) = p.row + d.delta.1 * n
  col : (q.col : Int) = p.col + d.delta.2 * n

namespace Pos.Ahead

theorem refl (p : Pos) (d : Direction) : p.Ahead d 0 p := by
  constructor <;> simp

/-- A cell lies at one distance only, since each direction changes a coordinate. -/
theorem steps_eq {p q : Pos} {d : Direction} {m n : Nat} (hm : p.Ahead d m q)
    (hn : p.Ahead d n q) : m = n := by
  obtain ⟨hrow, hcol⟩ := hm
  obtain ⟨hrow', hcol'⟩ := hn
  cases d <;> simp only [Direction.delta] at hrow hcol hrow' hcol' <;> omega

theorem direction_eq {p q : Pos} {d e : Direction} (hd : p.Ahead d 1 q) (he : p.Ahead e 1 q) :
    d = e := by
  obtain ⟨hrow, hcol⟩ := hd
  obtain ⟨hrow', hcol'⟩ := he
  cases d <;> cases e <;> simp only [Direction.delta] at hrow hcol hrow' hcol' <;>
    first | rfl | omega

theorem ne {p q r : Pos} {d : Direction} {m n : Nat} (hq : p.Ahead d m q) (hr : p.Ahead d n r)
    (h : m ≠ n) : q ≠ r := by
  rintro rfl
  exact h (hq.steps_eq hr)

theorem ne_start {p q : Pos} {d : Direction} {n : Nat} (h : p.Ahead d n q) (hn : n ≠ 0) :
    p ≠ q :=
  (refl p d).ne h hn.symm

/-- A cell farther ahead is ahead of each cell on the way. -/
theorem rest {p q r : Pos} {d : Direction} {m n : Nat} (hq : p.Ahead d m q)
    (hr : p.Ahead d (m + n) r) : q.Ahead d n r := by
  obtain ⟨hrow, hcol⟩ := hq
  obtain ⟨hrow', hcol'⟩ := hr
  cases d <;> simp only [Direction.delta] at hrow hcol hrow' hcol' <;> constructor <;>
    simp only [Direction.delta] <;> omega

end Pos.Ahead

namespace Word

theorem add_of_fits {x y : Int} (h : Fits (x + y)) : add x y = .ok (x + y) := if_pos h

theorem mul_of_fits {x y : Int} (h : Fits (x * y)) : mul x y = .ok (x * y) := if_pos h

end Word

namespace Board

/-- The cell a number of steps away in a direction, if it is on the board, reckoned in whole
numbers. -/
def ahead (b : Board) (p : Pos) (d : Direction) (n : Nat) : Option Pos :=
  let row : Int := p.row + d.delta.1 * n
  let col : Int := p.col + d.delta.2 * n
  if row < 0 ∨ col < 0 ∨ (b.height : Int) ≤ row ∨ (b.width : Int) ≤ col then none
  else some ⟨row.toNat, col.toNat⟩

theorem ahead_eq_some_iff {b : Board} {p q : Pos} {d : Direction} {n : Nat} :
    b.ahead p d n = some q ↔ p.Ahead d n q ∧ q.row < b.height ∧ q.col < b.width := by
  unfold ahead
  dsimp only
  constructor
  · intro h
    split at h
    · cases h
    · rename_i hin
      obtain rfl := Option.some.inj h
      refine ⟨⟨?_, ?_⟩, ?_, ?_⟩ <;> dsimp only <;> omega
  · rintro ⟨⟨hrow, hcol⟩, hr, hc⟩
    rw [← hrow, ← hcol, if_neg (by omega)]
    simp

/-- Every coordinate of the board is less than half the number of words. -/
structure Fits (b : Board) : Prop where
  height : (b.height : Int) < Word.half
  width : (b.width : Int) < Word.half

theorem shift_eq_ahead {b : Board} {p : Pos} {d : Direction} {n : Nat}
    (hr : (p.row : Int) < Word.half) (hc : (p.col : Int) < Word.half)
    (hn : (n : Int) < Word.half) (hrow : Word.Fits (p.row + d.delta.1 * n))
    (hcol : Word.Fits (p.col + d.delta.2 * n)) : b.shift p d n = .ok (b.ahead p d n) := by
  have hmul : Word.Fits (d.delta.1 * n) ∧ Word.Fits (d.delta.2 * n) := by
    unfold Word.Fits Word.half at *
    cases d <;> simp only [Direction.delta] <;> omega
  unfold shift
  dsimp only
  rw [Word.signed_of_lt hr, Word.signed_of_lt hc, Word.signed_of_lt hn,
    Word.mul_of_fits hmul.1, Word.mul_of_fits hmul.2]
  simp only [Result.ok_bind]
  rw [Word.add_of_fits hrow, Word.add_of_fits hcol]
  simp only [Result.ok_bind, ahead]
  split <;> rfl

theorem neighbor_eq_ahead {b : Board} (hb : b.Fits) {p : Pos} {t : Tile} (hp : b.get? p = some t)
    (d : Direction) : b.neighbor p d = .ok (b.ahead p d 1) := by
  obtain ⟨hr, hc⟩ := lt_of_get? hp
  obtain ⟨hh, hw⟩ := hb
  unfold neighbor
  apply shift_eq_ahead
  · omega
  · omega
  · decide
  · unfold Word.Fits Word.half at *
    cases d <;> simp only [Direction.delta] <;> omega
  · unfold Word.Fits Word.half at *
    cases d <;> simp only [Direction.delta] <;> omega

/-- Two steps ahead can leave the words only where one step already leaves the board. -/
theorem shift_two_eq_ahead {b : Board} (hb : b.Fits) {p q : Pos} {t : Tile}
    (hp : b.get? p = some t) {d : Direction} (hq : b.ahead p d 1 = some q) :
    b.shift p d 2 = .ok (b.ahead p d 2) := by
  obtain ⟨hr, hc⟩ := lt_of_get? hp
  obtain ⟨⟨hrow, hcol⟩, hqr, hqc⟩ := ahead_eq_some_iff.1 hq
  obtain ⟨hh, hw⟩ := hb
  apply shift_eq_ahead
  · omega
  · omega
  · decide
  · unfold Word.Fits Word.half at *
    cases d <;> simp only [Direction.delta] at * <;> omega
  · unfold Word.Fits Word.half at *
    cases d <;> simp only [Direction.delta] at * <;> omega

end Board

end Sokoban
