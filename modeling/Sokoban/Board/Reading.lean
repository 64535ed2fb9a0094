import Sokoban.Fault
import Sokoban.Text

/-! # Reading a board

A board is read from its drawing, line by line. Lines are trimmed and empty ones skipped; what is
left are the rows. The first row at fault decides the error, and inside a row an unknown glyph comes
before a wrong length.
-/

namespace Sokoban.Board

/-- The rows of a drawing: its lines, trimmed, without the empty ones. -/
def drawnRows (drawing : String) : List (List Char) :=
  ((Text.lines drawing.toList).map Text.trim).filter fun row => !row.isEmpty

/-- The tiles of a row, of which the first stands at a given column. -/
def readTiles (row col : Nat) : List Char → Result (List Tile)
  | [] => .ok []
  | c :: rest =>
    match Tile.ofGlyph? c with
    | none => Result.fail (.unknownGlyph row col c)
    | some t => do
      let more ← readTiles row (col + 1) rest
      return t :: more

/-- The rows of a drawing as tiles, of which the first has a given index and all have a given
length. -/
def readRows (width row : Nat) :
    List (List Char) → Result { rows : List (List Tile) // ∀ r ∈ rows, r.length = width }
  | [] => .ok ⟨[], fun _ h => absurd h List.not_mem_nil⟩
  | line :: rest => do
    let tiles ← readTiles row 0 line
    if h : tiles.length = width then
      let more ← readRows width (row + 1) rest
      return ⟨tiles :: more.1, List.forall_mem_cons.2 ⟨h, more.2⟩⟩
    else
      Result.fail (.board (.rowLength row tiles.length width))

/-- The board that has the given rows; the first row's length is expected of all. -/
def ofDrawnRows (lines : List (List Char)) : Result Board := do
  let width := (lines.headD []).length
  let rows ← readRows width 0 lines
  if lines.isEmpty then Result.fail (.board .noRow)
  else return ⟨rows.1, width, rows.2⟩

/-- The board of a drawing. A board has at least one row and one keeper. -/
def parse (drawing : String) : Result Board := do
  let b ← ofDrawnRows (drawnRows drawing)
  if b.keepers.isEmpty then Result.fail (.board .noKeeper)
  else return b

/-- The board of a list of lines that are known to draw one: anything else ends the computation. -/
def ofLines (lines : List String) : Result Board :=
  match parse (String.intercalate "\n" lines) with
  | .error (.error e) => Result.crash (.illegalBoard e)
  | answer => answer

end Sokoban.Board
