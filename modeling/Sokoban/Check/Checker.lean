import Sokoban.Check.Duration
import Sokoban.Check.Outcome
import Sokoban.Session

/-! # Model checkers, their reports, and comparisons of two -/

namespace Sokoban

structure Report where
  engine : Engine
  outcome : Outcome
  verdict : Verdict
  elapsed : Duration
  /-- The file of the model. -/
  model : String
  /-- The file of the output. -/
  output : String
  deriving DecidableEq

namespace Report

def ofRun (engine : Engine) (outcome : Outcome) (elapsed : Duration) (model output : String) :
    Report :=
  ⟨engine, outcome, .ofOutcome engine outcome, elapsed, model, output⟩

/-- The verdict is the one that the outcome calls for. A checker may report anything else. -/
def JudgedByOutcome (r : Report) : Prop := r.verdict = .ofOutcome r.engine r.outcome

theorem judgedByOutcome_ofRun (engine : Engine) (outcome : Outcome) (elapsed : Duration)
    (model output : String) : (ofRun engine outcome elapsed model output).JudgedByOutcome := rfl

def text (r : Report) : String :=
  r.engine.text ++ ": " ++ r.verdict.text ++ " (" ++ r.outcome.text ++ ") in " ++ r.elapsed.text

end Report

structure Comparison where
  left : Report
  right : Report
  deriving DecidableEq

namespace Comparison

/-- The engine of the shorter run, the first one if both took the same time. -/
def faster (c : Comparison) : Engine :=
  if c.right.elapsed.nanoseconds < c.left.elapsed.nanoseconds then c.right.engine else c.left.engine

def difference (c : Comparison) : Duration := c.left.elapsed.distance c.right.elapsed

/-- Whether the verdicts do not contradict each other: they are the same, or one is unknown. -/
def agree (c : Comparison) : Bool :=
  c.left.verdict == c.right.verdict || c.left.verdict == .unknown || c.right.verdict == .unknown

def text (c : Comparison) : String :=
  c.left.text ++ "\n" ++ c.right.text ++ "\n" ++
    c.faster.text ++ " is faster by " ++ c.difference.text

/-- What the journal says of two runs that contradict each other. -/
def notices (c : Comparison) : List Entry :=
  if c.agree then []
  else
    [⟨.warn, "engines disagree: " ++ c.left.engine.text ++ " says " ++ c.left.verdict.text ++
      ", " ++ c.right.engine.text ++ " says " ++ c.right.verdict.text⟩]

end Comparison

/-- A model checker takes a system, and the stem of the names of its files. -/
structure Checker (m : Type → Type) where
  engine : Engine
  check : System → String → ExceptT Fault m Report

variable {m : Type → Type} [Monad m] [Journal m]

def Checker.compare (left right : Checker m) (s : System) (stem : String) :
    ExceptT Fault m Comparison := do
  let l ← whileDoing (.running left.engine) (left.check s stem)
  let r ← whileDoing (.running right.engine) (right.check s stem)
  let c : Comparison := ⟨l, r⟩
  Session.recordAll c.notices
  return c

end Sokoban
