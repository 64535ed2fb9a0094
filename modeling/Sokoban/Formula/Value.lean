import Sokoban.Fault
import Sokoban.Formula.Printer
import Sokoban.Word

/-! # Values of formulas

Evaluation is strict: all arguments have a value before their operator is looked at, the left ones
first. Numbers are machine words of 64 bits, and a sum that does not fit ends the computation.
-/

namespace Sokoban

namespace Op

def integers (op : Op) : List Const → Result (List Nat)
  | [] => .ok []
  | c :: rest =>
    match c.toInt? with
    | some n => do
      let more ← integers op rest
      return n :: more
    | none => Result.fail (.evaluation (.notInteger op c))

def allTrue : List Const → Result Bool
  | [] => .ok true
  | c :: rest =>
    match c.toBool? with
    | some b => do
      let more ← allTrue rest
      return b && more
    | none => Result.fail (.evaluation (.joinsNonBoolean c))

/-- The sum of numbers, however large. -/
def total : List Nat → Nat := List.foldr (· + ·) 0

/-- The sum of numbers, if it fits into a word. -/
def sum (ns : List Nat) : Result Const :=
  if total ns < Word.bound then .ok (.int (total ns)) else Result.crash .addOverflow

def isLess : List Nat → Bool
  | m :: n :: _ => decide (m < n)
  | _ => false

/-- Whether two values are the same; values of different kinds never are. -/
def isSame : List Const → Bool
  | c :: d :: _ => c == d
  | _ => false

def negation : List Const → Result Const
  | .bool b :: _ => .ok (.bool !b)
  | c :: _ => Result.fail (.evaluation (.negatesNonBoolean c))
  | [] => Result.fail (.evaluation (.arity .not 0))

def takes (op : Op) (n : Nat) : Bool :=
  decide (op.minArity ≤ n) && !op.takesFewerThan n

def value (op : Op) (args : List Const) : Result Const :=
  if op.takes args.length then
    match op with
    | .add => do
      let ns ← integers op args
      sum ns
    | .lt => do
      let ns ← integers op args
      return .bool (isLess ns)
    | .eq => .ok (.bool (isSame args))
    | .not => negation args
    | .and => do
      let b ← allTrue args
      return .bool b
    | .eventually => Result.fail (.evaluation (.temporal op))
  else Result.fail (.evaluation (.arity op args.length))

end Op

namespace Formula

variable {V : Type} [Variable V]

mutual

def value (model : V → Option Const) : Formula V → Result Const
  | const c => .ok c
  | var v =>
    match model v with
    | some c => .ok c
    | none => Result.fail (.evaluation (.unknownVariable (Variable.name v)))
  | app op args => do
    let values ← argumentValues model args
    (op.value values).mapError fun fault => fault.during (.evaluating (app op args).text)

def argumentValues (model : V → Option Const) : List (Formula V) → Result (List Const)
  | [] => .ok []
  | f :: rest => do
    let c ← value model f
    let more ← argumentValues model rest
    return c :: more

end

end Formula

end Sokoban
