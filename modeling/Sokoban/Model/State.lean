import Sokoban.Board.Basic
import Sokoban.Formula.Basic
import Sokoban.Grid.PosMap

/-! # Scopes and states

A scope is the set of cells that have a variable, together with the bound of the step counter. The
variables are the cells in row-major order and then the counter. A state says what each of its cells
holds and how many steps were made.
-/

namespace Sokoban

/-- The cells that have a variable, and the largest value of the step counter. -/
structure Scope where
  cells : PosSet
  limit : Nat
  deriving DecidableEq

namespace Scope

/-- Every cell of a board that is not a wall has a variable. -/
def ofBoard (b : Board) (limit : Nat) : Scope :=
  ⟨.ofList (b.positions fun t => !t.isWall), limit⟩

def find? (s : Scope) (p : Pos) : Option Var :=
  if p ∈ s.cells then some (.cell p) else none

/-- All variables: the cells in row-major order, then the step counter. -/
def declared (s : Scope) : List Var := s.cells.toList.map .cell ++ [.steps]

def range (s : Scope) : Var → Nat × Nat
  | .cell _ => (Content.empty.code, Content.keeper.code)
  | .steps => (0, s.limit)

/-- A scope in short: the cells with their range, then the counter with its own. -/
def text (s : Scope) : String :=
  let names := String.intercalate " " (s.cells.toList.map fun p => (Var.cell p).name)
  let cells := if s.cells.toList.isEmpty then "" else names ++ ": 1..3,\n"
  cells ++ Var.steps.name ++ ": 0.." ++ toString s.limit ++ ","

end Scope

/-- The content of some cells, and the number of steps made. -/
structure State where
  cells : PosMap Content
  steps : Nat
  deriving DecidableEq

namespace State

/-- The state at the start of a play on a board. If one box is to be kept, the cells of all other
boxes start empty. -/
def initial (b : Board) (keep : Option Pos) : State :=
  let start := b.cells.filterMap fun (p, t) => t.content?.map fun c =>
    match keep with
    | some kept => if c = .box ∧ p ≠ kept then (p, Content.empty) else (p, c)
    | none => (p, c)
  ⟨.ofList start, 0⟩

def get? (s : State) (p : Pos) : Option Content := s.cells.get? p

def set (s : State) (p : Pos) (c : Content) : State := { s with cells := s.cells.insert p c }

def erase (s : State) (p : Pos) : State := { s with cells := s.cells.erase p }

def positions (s : State) (c : Content) : List Pos :=
  (s.cells.entries.filter fun e => e.2 = c).map (·.1)

def count (s : State) (c : Content) : Nat := (s.positions c).length

def value? (s : State) : Var → Option Const
  | .cell p => (s.get? p).map .content
  | .steps => some (.int s.steps)

def stepValue? (before after : State) (v : StepVar) : Option Const :=
  if v.next then after.value? v.var else before.value? v.var

def text (s : State) : String :=
  "steps: " ++ toString s.steps ++
    String.join (s.cells.entries.map fun (p, c) => ", " ++ (Var.cell p).name ++ ": " ++ c.text)

end State

end Sokoban
