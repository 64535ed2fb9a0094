import Sokoban.Fault
import Sokoban.Model.Rule
import Sokoban.Word

/-! # The rules of a board

From each passable cell and in each direction a keeper can move onto the next cell, unless that is
a wall, and push the box there, if the cell beyond is passable. Rules are listed by cell in
row-major order, then by direction, the move before the push. The cells are found by reckoning with
coordinates in signed words of 64 bits: each product and each sum must fit into such a word, or else
the computation crashes.
-/

namespace Sokoban

namespace Word

def add (x y : Int) : Result Int :=
  if Fits (x + y) then .ok (x + y) else Result.crash .addOverflow

def mul (x y : Int) : Result Int :=
  if Fits (x * y) then .ok (x * y) else Result.crash .mulOverflow

end Word

namespace Board

/-- The cell a number of steps away in a direction, if it is on the board. -/
def shift (b : Board) (p : Pos) (d : Direction) (n : Nat) : Result (Option Pos) := do
  let steps := Word.signed n
  let row ← Word.add (Word.signed p.row) (← Word.mul d.delta.1 steps)
  let col ← Word.add (Word.signed p.col) (← Word.mul d.delta.2 steps)
  if row < 0 ∨ col < 0 ∨ (b.height : Int) ≤ row ∨ (b.width : Int) ≤ col then
    return none
  else
    return some ⟨row.toNat, col.toNat⟩

def neighbor (b : Board) (p : Pos) (d : Direction) : Result (Option Pos) := b.shift p d 1

def rulesFrom (b : Board) (scope : Scope) (keeper : Pos) (d : Direction) : Result (List Rule) := do
  match ← b.neighbor keeper d with
  | none => return []
  | some target =>
    if b.isFree target then
      let move := Rule.within scope .move keeper d target none
      match ← b.shift keeper d 2 with
      | none => return [move]
      | some beyond =>
        if b.isPassable beyond then
          return [move, Rule.within scope .push keeper d target (some beyond)]
        else
          return [move]
    else
      return []

def departures (b : Board) : List (Pos × Direction) :=
  b.passable.flatMap fun p => Direction.all.map fun d => (p, d)

def rules (b : Board) (scope : Scope) : Result (List Rule) := do
  let parts ← b.departures.mapM fun (p, d) => b.rulesFrom scope p d
  return parts.flatten

end Board

end Sokoban
