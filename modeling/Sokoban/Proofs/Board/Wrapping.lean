import Mathlib.Tactic.Ring
import Sokoban.Proofs.Board.Drawn

/-!
# Shifts of any length

A shift reads its arguments as signed words, so whatever is at least half the number of words stands
for a negative number. Over all arguments this leaves three outcomes. A product or a sum may be no
signed word, and the shift crashes. Otherwise it finds the cell of the board whose coordinates are
the true ones up to multiples of the number of words: the true cell, or one that has nothing to do
with it. `Board.shiftsExactly_iff` says when a shift is exact.
-/

namespace Sokoban

namespace Word

/-- Reading a number as a signed word changes it by a multiple of the number of words. -/
theorem bound_dvd_signed_sub (n : Nat) : (bound : Int) ∣ signed n - n := by
  unfold signed bound
  rw [Int.bmod_def]
  omega

theorem bound_dvd_reckoned_sub (m n : Nat) (factor : Int) :
    (bound : Int) ∣ signed m + factor * signed n - (m + factor * n) := by
  have hsplit : signed m + factor * signed n - (m + factor * n) =
      (signed m - m) + factor * (signed n - n) := by ring
  rw [hsplit]
  exact Int.dvd_add (bound_dvd_signed_sub m) (Dvd.dvd.mul_left (bound_dvd_signed_sub n) factor)

/-- Of the numbers that differ by multiples of the number of words, one at most is a signed word. -/
theorem dvd_sub_iff_eq {x y z : Int} (hx : Fits x) (hy : Fits y) (h : (bound : Int) ∣ y - z) :
    (bound : Int) ∣ x - z ↔ x = y := by
  constructor
  · intro hxz
    have hdvd : (bound : Int) ∣ x - y := by
      have := Int.dvd_sub hxz h
      rwa [sub_sub_sub_cancel_right] at this
    have hlt : (x - y).natAbs < (bound : Int).natAbs := by
      rw [bound_eq]
      unfold Fits half at *
      omega
    have := Int.eq_zero_of_dvd_of_natAbs_lt_natAbs hdvd hlt
    omega
  · rintro rfl
    exact h

theorem add_eq_ok_iff {x y z : Int} : add x y = .ok z ↔ Fits (x + y) ∧ z = x + y := by
  unfold add
  split <;> simp_all [Result.crash, eq_comm]

theorem mul_eq_ok_iff {x y z : Int} : mul x y = .ok z ↔ Fits (x * y) ∧ z = x * y := by
  unfold mul
  split <;> simp_all [Result.crash, eq_comm]

end Word

namespace Pos

variable {p q : Pos} {d : Direction} {n : Nat}

/-- A position lies a number of steps from another one in a direction, give or take multiples of the
number of words. -/
structure AheadModulo (p : Pos) (d : Direction) (n : Nat) (q : Pos) : Prop where
  row : (Word.bound : Int) ∣ q.row - (p.row + d.delta.1 * n)
  col : (Word.bound : Int) ∣ q.col - (p.col + d.delta.2 * n)

theorem Ahead.modulo (h : p.Ahead d n q) : p.AheadModulo d n q := by
  obtain ⟨hrow, hcol⟩ := h
  constructor
  · rw [hrow, Int.sub_self]
    exact Int.dvd_zero _
  · rw [hcol, Int.sub_self]
    exact Int.dvd_zero _

/-- Every product and every sum that leads a number of steps in a direction is a signed word. -/
structure Reckons (p : Pos) (d : Direction) (n : Nat) : Prop where
  row_product : Word.Fits (d.delta.1 * Word.signed n)
  row_sum : Word.Fits (Word.signed p.row + d.delta.1 * Word.signed n)
  col_product : Word.Fits (d.delta.2 * Word.signed n)
  col_sum : Word.Fits (Word.signed p.col + d.delta.2 * Word.signed n)

/-- Then the reckoned coordinates are the true ones up to multiples of the number of words. -/
theorem Reckons.aheadModulo_iff (h : p.Reckons d n) (hr : (q.row : Int) < Word.half)
    (hc : (q.col : Int) < Word.half) :
    p.AheadModulo d n q ↔ (q.row : Int) = Word.signed p.row + d.delta.1 * Word.signed n ∧
      (q.col : Int) = Word.signed p.col + d.delta.2 * Word.signed n := by
  have hfits : ∀ {m : Nat}, (m : Int) < Word.half → Word.Fits m := by
    unfold Word.Fits Word.half
    omega
  have hrow := Word.dvd_sub_iff_eq (hfits hr) h.row_sum
    (Word.bound_dvd_reckoned_sub p.row n d.delta.1)
  have hcol := Word.dvd_sub_iff_eq (hfits hc) h.col_sum
    (Word.bound_dvd_reckoned_sub p.col n d.delta.2)
  rw [← hrow, ← hcol]
  exact ⟨fun hq => ⟨hq.row, hq.col⟩, fun hq => ⟨hq.1, hq.2⟩⟩

end Pos

namespace Board

variable {b : Board} {p : Pos} {d : Direction} {n : Nat}

def cellAt (b : Board) (row col : Int) : Option Pos :=
  if row < 0 ∨ col < 0 ∨ (b.height : Int) ≤ row ∨ (b.width : Int) ≤ col then none
  else some ⟨row.toNat, col.toNat⟩

theorem cellAt_eq_some_iff {row col : Int} {q : Pos} : b.cellAt row col = some q ↔
    ((q.row : Int) = row ∧ (q.col : Int) = col) ∧ q.row < b.height ∧ q.col < b.width := by
  unfold cellAt
  constructor
  · intro h
    split at h
    · cases h
    · obtain rfl := Option.some.inj h
      dsimp only
      omega
  · rintro ⟨⟨rfl, rfl⟩, hr, hc⟩
    rw [if_neg (by omega)]
    simp

theorem shift_eq_cellAt (h : p.Reckons d n) : b.shift p d n =
    .ok (b.cellAt (Word.signed p.row + d.delta.1 * Word.signed n)
      (Word.signed p.col + d.delta.2 * Word.signed n)) := by
  have hrowProduct := Word.mul_of_fits h.row_product
  have hrowSum := Word.add_of_fits h.row_sum
  have hcolProduct := Word.mul_of_fits h.col_product
  have hcolSum := Word.add_of_fits h.col_sum
  unfold shift cellAt
  dsimp only
  rw [hrowProduct, Result.ok_bind, hrowSum, Result.ok_bind, hcolProduct, Result.ok_bind, hcolSum,
    Result.ok_bind, apply_ite Except.ok]
  rfl

theorem reckons_of_shift {found : Option Pos} (h : b.shift p d n = .ok found) :
    p.Reckons d n := by
  unfold shift at h
  dsimp only at h
  obtain ⟨rowProduct, hrowProduct, h⟩ := Result.bind_eq_ok.1 h
  obtain ⟨row, hrow, h⟩ := Result.bind_eq_ok.1 h
  obtain ⟨colProduct, hcolProduct, h⟩ := Result.bind_eq_ok.1 h
  obtain ⟨col, hcol, -⟩ := Result.bind_eq_ok.1 h
  rw [Word.mul_eq_ok_iff] at hrowProduct hcolProduct
  rw [Word.add_eq_ok_iff] at hrow hcol
  rw [hrowProduct.2] at hrow
  rw [hcolProduct.2] at hcol
  exact ⟨hrowProduct.1, hrow.1, hcolProduct.1, hcol.1⟩

/-- A shift that does not crash finds the cell of the board that the steps lead to up to multiples
of the number of words. -/
theorem shift_eq_some_iff (hb : b.Fits) {found : Option Pos} (h : b.shift p d n = .ok found)
    (q : Pos) :
    found = some q ↔ p.AheadModulo d n q ∧ q.row < b.height ∧ q.col < b.width := by
  have hreckons := reckons_of_shift h
  rw [shift_eq_cellAt hreckons] at h
  obtain rfl := Except.ok.inj h
  rw [cellAt_eq_some_iff]
  refine and_congr_left fun hq => ?_
  obtain ⟨hh, hw⟩ := hb
  rw [hreckons.aheadModulo_iff (by omega) (by omega)]

/-- The shift does not crash, and finds the cell that lies there in whole numbers, if that is on the
board. -/
def ShiftsExactly (b : Board) (p : Pos) (d : Direction) (n : Nat) : Prop :=
  ∃ found, b.shift p d n = .ok found ∧
    ∀ q, found = some q ↔ p.Ahead d n q ∧ q.row < b.height ∧ q.col < b.width

/-- A shift is exact if nothing leaves the signed words and the board has no cell to which the steps
lead only up to multiples of the number of words. -/
theorem shiftsExactly_iff (hb : b.Drawn) :
    b.ShiftsExactly p d n ↔ p.Reckons d n ∧
      ∀ q, q.row < b.height → q.col < b.width → p.AheadModulo d n q → p.Ahead d n q := by
  constructor
  · rintro ⟨found, hshift, hfound⟩
    refine ⟨reckons_of_shift hshift, fun q hr hc hq => ?_⟩
    exact ((hfound q).1 ((shift_eq_some_iff hb.fits hshift q).2 ⟨hq, hr, hc⟩)).1
  · rintro ⟨hreckons, htrue⟩
    refine ⟨_, shift_eq_cellAt hreckons, fun q => ?_⟩
    rw [shift_eq_some_iff hb.fits (shift_eq_cellAt hreckons) q]
    exact and_congr_left fun hq => ⟨htrue q hq.1 hq.2, Pos.Ahead.modulo⟩

/-- Coordinates and steps from half the words on can cancel out. -/
theorem shiftsExactly_of_largest_word :
    ∃ b : Board, b.Drawn ∧ b.shift ⟨0, 0xffffffffffffffff⟩ .left 0xffffffffffffffff =
        .ok (some ⟨0, 0⟩) ∧
      b.ShiftsExactly ⟨0, 0xffffffffffffffff⟩ .left 0xffffffffffffffff := by
  have hb : Drawn ⟨[[.keeper, .goal]], 2, by decide⟩ := ⟨"@.", by decide, rfl⟩
  have hsigned : Word.signed 0xffffffffffffffff = -1 := by decide
  have hreckons : Pos.Reckons ⟨0, 0xffffffffffffffff⟩ .left 0xffffffffffffffff := by
    constructor <;> decide
  refine ⟨_, hb, by decide, (shiftsExactly_iff hb).2 ⟨hreckons, fun q hr hc hq => ?_⟩⟩
  obtain ⟨hh, hw⟩ := hb.fits
  obtain ⟨hrow, hcol⟩ := (hreckons.aheadModulo_iff (by omega) (by omega)).1 hq
  rw [hsigned] at hcol
  constructor
  · exact hrow
  · exact hcol

/-- The largest word stands for minus one, and so many steps to the left end on the right. -/
theorem not_shiftsExactly_of_largest_word :
    ∃ b : Board, parse "@." = .ok b ∧ b.Drawn ∧
      b.shift ⟨0, 0⟩ .left 0xffffffffffffffff = .ok (some ⟨0, 1⟩) ∧
      ¬ b.ShiftsExactly ⟨0, 0⟩ .left 0xffffffffffffffff := by
  have hparse : parse "@." = .ok ⟨[[.keeper, .goal]], 2, by decide⟩ := rfl
  have hshift : shift ⟨[[.keeper, .goal]], 2, by decide⟩ ⟨0, 0⟩ .left 0xffffffffffffffff =
      .ok (some ⟨0, 1⟩) := by decide
  refine ⟨_, hparse, ⟨"@.", by decide, hparse⟩, hshift, ?_⟩
  rintro ⟨found, hfound, hexact⟩
  rw [hshift] at hfound
  obtain rfl := Except.ok.inj hfound
  obtain ⟨⟨-, hcol⟩, -⟩ := (hexact ⟨0, 1⟩).1 rfl
  -- the true column is far to the left of the board
  simp [Direction.delta] at hcol

end Board

end Sokoban
