/-! # Positions and directions on a grid

A position is a row and a column, both counted from zero. Positions are ordered row by row, and
inside a row from left to right; that is the order in which every list of cells is written.
-/

namespace Sokoban

/-- A cell's place: rows count downwards and columns rightwards, both from zero. -/
structure Pos where
  row : Nat
  col : Nat
  deriving DecidableEq, Ord

namespace Pos

/-- Row-major order: an earlier row first, and inside a row an earlier column. -/
protected def Before (p q : Pos) : Prop :=
  p.row < q.row ∨ (p.row = q.row ∧ p.col < q.col)

instance : LT Pos := ⟨Pos.Before⟩

theorem lt_iff {p q : Pos} : p < q ↔ p.row < q.row ∨ (p.row = q.row ∧ p.col < q.col) := Iff.rfl

instance (p q : Pos) : Decidable (p < q) :=
  inferInstanceAs (Decidable (p.row < q.row ∨ (p.row = q.row ∧ p.col < q.col)))

theorem lt_irrefl (p : Pos) : ¬ p < p := by
  simp [lt_iff]

theorem lt_trans {p q r : Pos} (hpq : p < q) (hqr : q < r) : p < r := by
  rw [lt_iff] at *
  omega

theorem eq_of_not_lt {p q : Pos} (hpq : ¬ p < q) (hqp : ¬ q < p) : p = q := by
  rw [lt_iff] at *
  have hrow : p.row = q.row := by omega
  have hcol : p.col = q.col := by omega
  cases p
  cases q
  simp_all

theorem ne_of_lt {p q : Pos} (h : p < q) : p ≠ q := fun e => lt_irrefl q (e ▸ h)

/-- Positions are shown as `(row, column)`. -/
def text (p : Pos) : String := "(" ++ toString p.row ++ ", " ++ toString p.col ++ ")"

end Pos

/-- Where a keeper can step. The constructors stand in the order in which rules are listed. -/
inductive Direction where
  | left
  | right
  | up
  | down
  deriving DecidableEq, Ord

namespace Direction

def all : List Direction := [left, right, up, down]

theorem mem_all (d : Direction) : d ∈ all := by
  cases d <;> simp [all]

def delta : Direction → Int × Int
  | left => (0, -1)
  | right => (0, 1)
  | up => (-1, 0)
  | down => (1, 0)

def text : Direction → String
  | left => "left"
  | right => "right"
  | up => "up"
  | down => "down"

end Direction

end Sokoban
