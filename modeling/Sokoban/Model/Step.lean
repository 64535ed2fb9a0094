import Sokoban.Formula.Value
import Sokoban.Formula.Typing
import Sokoban.Model.Rule

/-! # States and steps as formulas

The formula of a state says what each of its cells holds and how many steps were made. A rule has
two formulas: its guard, about the state before the step, and its update, which relates the state
before to the state after. Where no rule is enabled, the step changes nothing. All formulas use the
variables of a scope and fail on a cell that is not in it.
-/

namespace Sokoban

/-- The formula that a cell of the scope holds a content. The issue is raised of a cell outside. -/
def Scope.holding (s : Scope) (issue : Pos → ModelIssue) (p : Pos) (c : Content) :
    Result StateFormula :=
  match s.find? p with
  | some v => Formula.equal (.var v) (.const (.content c))
  | none => Result.fail (.model (issue p))

def State.formula (s : State) (scope : Scope) : Result StateFormula := do
  let cells ← s.cells.entries.mapM fun (p, c) => scope.holding .undeclaredStart p c
  let steps ← Formula.equal (.var Var.steps) (.const (.int s.steps))
  Formula.conj (cells ++ [steps])

def Var.unchanged (v : Var) : Result StepFormula :=
  Formula.equal (.var (StepVar.after v)) (.var (.current v))

def Scope.cellVariable (s : Scope) (p : Pos) : Result Var :=
  match s.find? p with
  | some v => .ok v
  | none => Result.fail (.model (.undeclaredCell p))

namespace Rule

/-- The condition under which a rule is enabled: steps are left, and the cells hold what is
required. -/
def guard (r : Rule) (scope : Scope) : Result StateFormula := do
  let below ← Formula.apply .lt [.var Var.steps, .const (.int r.limit)]
  let cells ← r.requires.mapM fun (p, c) => scope.holding .undeclaredGuard p c
  Formula.conj (below :: cells)

def assignment (scope : Scope) (p : Pos) (c : Content) : Result StepFormula := do
  let v ← scope.cellVariable p
  Formula.equal (.var (StepVar.after v)) (.const (.content c))

def countsStep : Result StepFormula := do
  let sum ← Formula.apply .add [.var (StepVar.current .steps), .const (.int 1)]
  Formula.equal (.var (StepVar.after .steps)) sum

def holding (scope : Scope) (p : Pos) : Result StepFormula := do
  let v ← scope.cellVariable p
  v.unchanged

/-- The change a rule makes: its assignments, one more step, and the cells it holds. -/
def update (r : Rule) (scope : Scope) : Result StepFormula := do
  let assigned ← r.effect.mapM fun (p, c) => assignment scope p c
  let counted ← countsStep
  let held ← r.frame.mapM (holding scope)
  Formula.conj (assigned ++ counted :: held)

end Rule

/-- The step that changes nothing: every variable of the scope stays as it is. -/
def Scope.stutter (s : Scope) : Result StepFormula := do
  let held ← s.declared.mapM Var.unchanged
  Formula.conj held

end Sokoban
