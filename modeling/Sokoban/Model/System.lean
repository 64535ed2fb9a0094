import Sokoban.Model.Legal
import Sokoban.Model.Step

/-! # Goals and transition systems

A goal is won when certain cells hold a box: all goal cells of a board, or the goal of one pair. The
property of a model is that its goal is never won, so a counterexample to it is a winning play.

A system has a scope, a start, rules in order of priority and a goal. In a state the first enabled
rule fires; where none is enabled the state stays. So a system has a single run, `run`. A system
is compiled from a board, for the whole board or for one pair of a box and a goal.
-/

namespace Sokoban

inductive Goal where
  /-- A box on each of some cells. -/
  | board (cells : List Pos)
  /-- A box on the goal of a pair. -/
  | pair (pair : Pair)
  deriving DecidableEq

namespace Goal

def ofBoard (b : Board) : Goal := board b.goals

def cells : Goal → List Pos
  | board cells => cells
  | pair p => [p.goal]

/-- The formula that the goal is reached: of one cell an equality, otherwise a conjunction. -/
def win (g : Goal) (scope : Scope) : Result StateFormula := do
  match ← g.cells.mapM fun p => scope.holding .undeclaredWin p .box with
  | [single] => return single
  | several => Formula.conj several

def property (g : Goal) (scope : Scope) : Result StateFormula := do
  let win ← g.win scope
  let reached ← Formula.apply .eventually [win]
  Formula.apply .not [reached]

def isWon (g : Goal) (s : State) : Bool := g.cells.all fun p => s.get? p == some .box

def text : Goal → String
  | board cells => "whole board, " ++ toString cells.length ++ " goal(s)"
  | pair p => p.text

end Goal

structure System where
  scope : Scope
  start : State
  /-- The formula of the start. -/
  initial : StateFormula
  /-- The rules, the first enabled of which fires. -/
  rules : List Rule
  goal : Goal

namespace System

def property (s : System) : Result StateFormula := s.goal.property s.scope

def enabled (s : System) (state : State) : List Rule := s.rules.filter (·.enabled state)

/-- The state after a step: the first enabled rule fires, or nothing changes. -/
def successor (s : System) (state : State) : State :=
  (s.rules.findSome? (·.fire state)).getD state

def runFrom (s : System) : Nat → State → List State
  | 0, state => [state]
  | n + 1, state => state :: s.runFrom n (s.successor state)

def run (s : System) (steps : Nat) : List State := s.runFrom steps s.start

/-- The bytes that a state takes in a list of states. -/
def stateSize : Nat := 32

/-- The states of the run from the start, in a list for which the space is set aside beforehand: its
length must be a word, and its size in bytes the value of a signed word. -/
def trace (s : System) (steps : Nat) : Result (List State) :=
  if Word.bound ≤ steps + 1 then Result.crash .addOverflow
  else if Word.Fits ((steps + 1) * stateSize) then .ok (s.run steps)
  else Result.crash .capacityOverflow

def isWon (s : System) (state : State) : Bool := s.goal.isWon state

/-- The formula of the start must have a value in the start, and be true. -/
def validateStart (s : System) : Result Unit := do
  if s.start.cells.keys ≠ s.scope.cells then Result.fail (.model .startCoverage)
  let holds ← (s.initial.value s.start.value?).mapError (.under (.model .initialUnevaluable))
  if holds ≠ .bool true then Result.fail (.model .initialFalse)

def validateGoal (s : System) : Result Unit :=
  match s.goal.cells.find? fun p => p ∉ s.scope.cells with
  | some p => Result.fail (.model (.undeclaredGoal p))
  | none => .ok ()

/-- A rule must mention declared cells only, and either assign or hold each of them, not both. -/
def validateRule (scope : Scope) (r : Rule) : Result Unit :=
  let frame := PosSet.ofList r.frame
  match r.mentions.toList.find? fun p => p ∉ scope.cells with
  | some p => Result.fail (.model (.ruleUndeclared r p))
  | none =>
    if frame.size ≠ r.frame.length then Result.fail (.model (.ruleHoldsTwice r))
    else match r.assigned.toList.find? fun p => p ∈ frame with
      | some p => Result.fail (.model (.ruleOverlap r p))
      | none =>
        if r.assigned.size + frame.size ≠ scope.cells.size then
          Result.fail (.model (.ruleIncomplete r))
        else .ok ()

/-- Whether the parts of a system fit together; if not, the first misfit. -/
def validate (s : System) : Result Unit := do
  s.validateStart
  s.validateGoal
  s.rules.forM (validateRule s.scope)

/-- The system of a board with a goal, in which one box may be kept and the others left out. -/
def build (b : Board) (limit : Nat) (keep : Option Pos) (goal : Goal) : Result System := do
  let scope := Scope.ofBoard b limit
  let start := State.initial b keep
  let initial ← start.formula scope
  let rules ← b.rules scope
  let s : System := ⟨scope, start, initial, rules, goal⟩
  Result.during .compiling s.validate
  return s

def compile (b : Board) (limit : Nat) : Result System := build b limit none (.ofBoard b)

/-- The system of a board with a single box, to be won by a box on the goal of the pair. -/
def compilePair (b : Board) (pair : Pair) (limit : Nat) : Result System :=
  match b.get? pair.boxed with
  | some t =>
    if t.hasBox then build b limit (some pair.boxed) (.pair pair)
    else Result.fail (.model (.noPairedBox pair.boxed))
  | none => Result.fail (.model (.noPairedBox pair.boxed))

end System

end Sokoban
