import Sokoban.Board.Tile
import Sokoban.Grid.Pos

/-! # Formulas

A formula is a constant, a variable or an operator applied to formulas. Formulas over `Var` speak
about one state; formulas over `StepVar` relate a state to the state after it. Nothing here
prevents an operator from being applied to arguments of the wrong number or kind; `Formula.Typing`
has the constructor that does.
-/

namespace Sokoban

inductive Kind where
  | bool
  | int
  | cell
  deriving DecidableEq, Ord

/-- Whether values of a kind can be added and compared. -/
def Kind.isArithmetic : Kind → Bool
  | .int => true
  | .bool | .cell => false

def Kind.text : Kind → String
  | .bool => "bool"
  | .int => "int"
  | .cell => "cell"

inductive Const where
  | bool (b : Bool)
  | int (n : Nat)
  | content (c : Content)
  deriving DecidableEq, Ord

namespace Const

def kind : Const → Kind
  | bool _ => .bool
  | int _ => .int
  | content _ => .cell

def toBool? : Const → Option Bool
  | bool b => some b
  | int _ | content _ => none

def toInt? : Const → Option Nat
  | int n => some n
  | bool _ | content _ => none

/-- Truth values are written in capitals, numbers and contents in decimal. -/
def text : Const → String
  | bool true => "TRUE"
  | bool false => "FALSE"
  | int n => toString n
  | content c => c.text

end Const

inductive Op where
  /-- Sum of two or more numbers. -/
  | add
  /-- Strictly less. -/
  | lt
  /-- Equality of two values of one kind. -/
  | eq
  /-- Negation. -/
  | not
  /-- Conjunction, true of no arguments. -/
  | and
  /-- At some point of the run. -/
  | eventually
  deriving DecidableEq, Ord

namespace Op

def symbol : Op → String
  | add => "+"
  | lt => "<"
  | eq => "="
  | not => "!"
  | and => "&"
  | eventually => "F"

/-- Whether the operator is written before its argument, not between its arguments. -/
def isLeading : Op → Bool
  | not | eventually => true
  | add | lt | eq | and => false

/-- How tightly an operator binds; a larger number binds tighter. -/
def precedence : Op → Nat
  | not | eventually => 5
  | add => 4
  | lt | eq => 3
  | and => 1

def minArity : Op → Nat
  | and => 0
  | not | eventually => 1
  | add | lt | eq => 2

def maxArity? : Op → Option Nat
  | not | eventually => some 1
  | lt | eq => some 2
  | add | and => none

/-- Whether a number of arguments is more than the operator takes. -/
def takesFewerThan (op : Op) (n : Nat) : Bool :=
  match op.maxArity? with
  | some max => max < n
  | none => false

def kind : Op → Kind
  | add => .int
  | lt | eq | not | and | eventually => .bool

end Op

/-- What a formula needs to know of its variables: their kind and their name. -/
class Variable (V : Type) where
  kind : V → Kind
  name : V → String

/-- A variable of one state: the content of a cell, or the number of steps made. -/
inductive Var where
  | cell (p : Pos)
  | steps
  deriving DecidableEq, Ord

namespace Var

def kind : Var → Kind
  | cell _ => .cell
  | steps => .int

/-- A cell's variable is named by its row and column. -/
def name : Var → String
  | cell p => "pos_" ++ toString p.row ++ "_" ++ toString p.col
  | steps => "steps_counter"

instance : Variable Var := ⟨kind, name⟩

end Var

/-- A variable of a step: a variable of the state before it or of the state after it. -/
structure StepVar where
  var : Var
  next : Bool
  deriving DecidableEq, Ord

namespace StepVar

def current (v : Var) : StepVar := ⟨v, false⟩

def after (v : Var) : StepVar := ⟨v, true⟩

/-- The variable after the step is written with `next`. -/
def name (v : StepVar) : String :=
  if v.next then "next(" ++ v.var.name ++ ")" else v.var.name

instance : Variable StepVar := ⟨fun v => v.var.kind, name⟩

end StepVar

inductive Formula (V : Type) where
  | const (c : Const)
  | var (v : V)
  | app (op : Op) (args : List (Formula V))

abbrev StateFormula := Formula Var

/-- A formula that relates two successive states. -/
abbrev StepFormula := Formula StepVar

namespace Formula

variable {V : Type}

def isApp : Formula V → Bool
  | app _ _ => true
  | const _ | var _ => false

/-- The arguments of a conjunction; any other formula is its own only conjunct. -/
def conjuncts : Formula V → List (Formula V)
  | app .and args => args
  | f => [f]

/-- The kind of a formula's value, as its outermost operator tells. -/
def kind [Variable V] : Formula V → Kind
  | const c => c.kind
  | var v => Variable.kind v
  | app op _ => op.kind

end Formula

end Sokoban
