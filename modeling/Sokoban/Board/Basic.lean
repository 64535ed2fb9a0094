import Sokoban.Board.Tile
import Sokoban.Grid.PosSet

/-! # Boards

A board is a rectangle of tiles. Cells are listed row by row, each row from left to right. Boxes and
goals are paired by their place in that order; nothing says that the box can be brought to that
goal.
-/

namespace Sokoban

structure Board where
  rows : List (List Tile)
  width : Nat
  rectangular : ∀ row ∈ rows, row.length = width
  deriving DecidableEq

namespace Board

def height (b : Board) : Nat := b.rows.length

def get? (b : Board) (p : Pos) : Option Tile := b.rows[p.row]?.bind fun row => row[p.col]?

/-- Every cell with its tile, in row-major order. -/
def cells (b : Board) : List (Pos × Tile) :=
  b.rows.zipIdx.flatMap fun (row, i) => row.zipIdx.map fun (t, j) => (⟨i, j⟩, t)

/-- The cells whose tile passes a test, in row-major order. -/
def positions (b : Board) (test : Tile → Bool) : List Pos :=
  (b.cells.filter fun c => test c.2).map (·.1)

def keepers (b : Board) : List Pos := b.positions Tile.hasKeeper

def boxes (b : Board) : List Pos := b.positions Tile.hasBox

def goals (b : Board) : List Pos := b.positions Tile.isGoal

/-- The cells from which a keeper can walk on. -/
def passable (b : Board) : List Pos := b.positions Tile.isPassable

/-- Whether a position is on the board and not a wall. -/
def isFree (b : Board) (p : Pos) : Bool :=
  match b.get? p with
  | some t => !t.isWall
  | none => false

def isPassable (b : Board) (p : Pos) : Bool :=
  match b.get? p with
  | some t => t.isPassable
  | none => false

/-- The drawing of a board: its rows, a line feed between two rows. -/
def text (b : Board) : String :=
  String.intercalate "\n" (b.rows.map fun row => String.ofList (row.map Tile.glyph))

end Board

/-- The cell of a box at the start, and a goal cell for it. -/
structure Pair where
  boxed : Pos
  goal : Pos
  deriving DecidableEq, Ord

def Pair.text (p : Pair) : String := "box " ++ p.boxed.text ++ " -> goal " ++ p.goal.text

/-- The first box with the first goal, the second with the second, until one of them runs out. -/
def Board.pairs (b : Board) : List Pair := b.boxes.zipWith Pair.mk b.goals

end Sokoban
