import Sokoban.Text

/-! # What the model checker is asked, and what it finds

The property of a model says that its goal is never reached, so a board is winnable when the
property is refuted.
-/

namespace Sokoban

/-- How the model checker searches: through decision diagrams, or for counterexamples up to a
length. -/
inductive Engine where
  | bdd
  | bmc (depth : Nat)
  deriving DecidableEq

namespace Engine

/-- What the model checker is told: to build the model, to check its property, to stop. -/
def script : Engine → String
  | bdd => "go\ncheck_ltlspec\nquit\n"
  | bmc depth => "go_bmc\ncheck_ltlspec_bmc -k " ++ toString depth ++ "\nquit\n"

def tag : Engine → String
  | bdd => "bdd"
  | bmc _ => "bmc"

def text : Engine → String
  | bdd => "BDD"
  | bmc depth => "BMC (depth " ++ toString depth ++ ")"

end Engine

/-- What the model checker found out about the property. -/
inductive Outcome where
  | holds
  | refuted
  | inconclusive
  deriving DecidableEq

namespace Outcome

def ofLine? (line : List Char) : Option Outcome :=
  if Text.contains "is false".toList line then some refuted
  else if Text.contains "is true".toList line then some holds
  else none

/-- What the first line of output that speaks of the property says. -/
def ofOutput (output : String) : Outcome :=
  ((Text.lines output.toList).findSome? ofLine?).getD inconclusive

def text : Outcome → String
  | holds => "property holds"
  | refuted => "property refuted"
  | inconclusive => "inconclusive"

end Outcome

inductive Verdict where
  | winnable
  | notWinnable
  | unknown
  deriving DecidableEq

namespace Verdict

/-- A refuted property is a winning play, and a property that holds excludes one, whatever the
engine. -/
def ofOutcome : Engine → Outcome → Verdict
  | .bdd, .refuted | .bmc _, .refuted => winnable
  | .bdd, .holds | .bmc _, .holds => notWinnable
  | .bdd, .inconclusive | .bmc _, .inconclusive => unknown

theorem ofOutcome_congr (e f : Engine) (o : Outcome) : ofOutcome e o = ofOutcome f o := by
  cases e <;> cases f <;> cases o <;> rfl

def isWinnable (v : Verdict) : Bool := v == winnable

def text : Verdict → String
  | winnable => "winnable"
  | notWinnable => "not winnable"
  | unknown => "unknown"

end Verdict

end Sokoban
