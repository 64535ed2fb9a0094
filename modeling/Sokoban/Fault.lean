import Sokoban.Check.Outcome
import Sokoban.Formula.Basic
import Sokoban.Model.Rule

/-! # What can go wrong

A computation answers with a value, with an error or with a crash. An error is an issue together
with the issues that caused it, outermost first; a crash is the end of the computation and has no
causes. All wording is in `Issue.message` and `Crash.message`.
-/

namespace Sokoban

inductive BoardIssue where
  | noRow
  | noKeeper
  | rowLength (row length expected : Nat)
  deriving DecidableEq

inductive TypingIssue where
  | tooFew (op : Op)
  | tooMany (op : Op) (max : Nat)
  | notBoolean (op : Op)
  | notArithmetic (op : Op) (found : Kind)
  | differentKinds (op : Op) (left right : Kind)
  deriving DecidableEq

inductive EvalIssue where
  | unknownVariable (name : String)
  | arity (op : Op) (count : Nat)
  | notInteger (op : Op) (found : Const)
  | negatesNonBoolean (found : Const)
  | joinsNonBoolean (found : Const)
  | temporal (op : Op)
  deriving DecidableEq

inductive ModelIssue where
  | undeclaredCell (p : Pos)
  | undeclaredStart (p : Pos)
  | undeclaredGuard (p : Pos)
  | undeclaredWin (p : Pos)
  | undeclaredGoal (p : Pos)
  | noPairedBox (p : Pos)
  | startCoverage
  | initialUnevaluable
  | initialFalse
  | ruleUndeclared (rule : Rule) (p : Pos)
  | ruleHoldsTwice (rule : Rule)
  | ruleOverlap (rule : Rule) (p : Pos)
  | ruleIncomplete (rule : Rule)
  | checkerCrashed
  deriving DecidableEq

inductive CheckerIssue where
  | notStarted (command : String)
  | scriptNotSent
  | notAwaited (command : String)
  | unsuccessful (command status complaint : String)
  | failed (message : String)
  deriving DecidableEq

inductive Activity where
  | evaluating (formula : String)
  | compiling
  | renderingGuard (rule : Rule)
  | renderingUpdate (rule : Rule)
  | creatingDirectory (path : String)
  | creatingModel (path : String)
  | writingModel (path : String)
  | writingOutput (path : String)
  | checkingModel (path : String)
  | running (engine : Engine)
  | compilingPair (pair : Pair)
  | checkingPair (index : Nat) (pair : Pair)
  | readingInput
  | readingBoard (path : String)
  deriving DecidableEq

/-- One thing that went wrong, or that was being done meanwhile. -/
inductive Issue where
  | board (issue : BoardIssue)
  | unknownGlyph (row col : Nat) (glyph : Char)
  | typing (issue : TypingIssue)
  | evaluation (issue : EvalIssue)
  | model (issue : ModelIssue)
  | checker (issue : CheckerIssue)
  | during (activity : Activity)
  | noPair (index count : Nat)
  /-- The operating system refused, in its words. -/
  | system (message : String)
  /-- A message of a caller's own. -/
  | other (message : String)
  deriving DecidableEq

/-- A text between backquotes. -/
def quoted (s : String) : String := "`" ++ s ++ "`"

namespace BoardIssue

def message : BoardIssue → String
  | noRow => "empty board"
  | noKeeper => "no keeper on the board"
  | rowLength row length expected =>
    "row " ++ toString row ++ " has length " ++ toString length ++ ", expected " ++
      toString expected

end BoardIssue

namespace TypingIssue

def message : TypingIssue → String
  | tooFew op => quoted op.symbol ++ " expects at least " ++ toString op.minArity ++ " argument(s)"
  | tooMany op max => quoted op.symbol ++ " expects at most " ++ toString max ++ " argument(s)"
  | notBoolean op => quoted op.symbol ++ "'s arguments must all be boolean expressions"
  | notArithmetic op found =>
    quoted op.symbol ++ "'s arguments must have an arithmetic type, unexpected type " ++
      quoted found.text
  | differentKinds op left right =>
    quoted op.symbol ++ "'s arguments must have the same type, found " ++ quoted left.text ++
      " and " ++ quoted right.text

end TypingIssue

namespace EvalIssue

def message : EvalIssue → String
  | unknownVariable name => "no value for variable " ++ quoted name
  | arity op count =>
    "illegal number of arguments for " ++ quoted op.symbol ++ ": " ++ toString count
  | notInteger op found => quoted op.symbol ++ " expects integers, got " ++ quoted found.text
  | negatesNonBoolean found =>
    quoted Op.not.symbol ++ " expects a boolean, got " ++ quoted found.text
  | joinsNonBoolean found =>
    quoted Op.and.symbol ++ " expects booleans, got " ++ quoted found.text
  | temporal op => "cannot evaluate temporal operator " ++ quoted op.symbol ++ " on a state"

end EvalIssue

namespace ModelIssue

def message : ModelIssue → String
  | undeclaredCell p => "cell " ++ p.text ++ " is not declared"
  | undeclaredStart p => "initial cell " ++ p.text ++ " is not declared"
  | undeclaredGuard p => "guard cell " ++ p.text ++ " is not declared"
  | undeclaredWin p => "goal cell " ++ p.text ++ " is undeclared"
  | undeclaredGoal p => "goal cell " ++ p.text ++ " is not declared"
  | noPairedBox p => "paired box " ++ p.text ++ " is not a box"
  | startCoverage => "initial state does not cover the declared cells"
  | initialUnevaluable => "cannot evaluate the initial predicate"
  | initialFalse => "initial predicate does not hold in the initial state"
  | ruleUndeclared rule p => "rule " ++ quoted rule.text ++ " mentions undeclared cell " ++ p.text
  | ruleHoldsTwice rule => "rule " ++ quoted rule.text ++ " holds some cell twice"
  | ruleOverlap rule p => "rule " ++ quoted rule.text ++ " both assigns and holds " ++ p.text
  | ruleIncomplete rule =>
    "rule " ++ quoted rule.text ++ " neither assigns nor holds some declared cell"
  | checkerCrashed => "checker thread panicked"

end ModelIssue

namespace CheckerIssue

def message : CheckerIssue → String
  | notStarted command => "failed to run " ++ quoted command
  | scriptNotSent => "failed to write nuXmv's script"
  | notAwaited command => "failed to wait for " ++ quoted command
  | unsuccessful command status complaint =>
    quoted command ++ " exited with " ++ status ++ ": " ++ complaint
  | failed message => message

end CheckerIssue

namespace Activity

def message : Activity → String
  | evaluating formula => "while evaluating " ++ quoted formula
  | compiling => "while compiling transition system"
  | renderingGuard rule => "while rendering the guard of " ++ quoted rule.text
  | renderingUpdate rule => "while rendering the update of " ++ quoted rule.text
  | creatingDirectory path => "while creating directory " ++ quoted path
  | creatingModel path => "while creating model file " ++ quoted path
  | writingModel path => "while writing model file " ++ quoted path
  | writingOutput path => "while writing output file " ++ quoted path
  | checkingModel path => "while checking " ++ quoted path
  | running engine => "while running " ++ engine.text
  | compilingPair pair => "while compiling " ++ pair.text
  | checkingPair index pair => "while checking pair " ++ toString index ++ ", " ++ pair.text
  | readingInput => "while reading board from stdin"
  | readingBoard path => "while reading board file " ++ quoted path

end Activity

namespace Issue

def message : Issue → String
  | board issue => "malformed board: " ++ issue.message
  | unknownGlyph row col glyph =>
    "unknown glyph " ++ quoted (String.singleton glyph) ++ " @" ++ toString row ++ ":" ++
      toString col
  | typing issue => issue.message
  | evaluation issue => issue.message
  | model issue => "invariant violation: " ++ issue.message
  | checker issue => "model checker failure: " ++ issue.message
  | during activity => activity.message
  | noPair index count =>
    "no pair with index " ++ toString index ++ ", the board has " ++ toString count ++ " pair(s)"
  | system text => text
  | other text => text

end Issue

/-- An issue and the issues that caused it, outermost first. -/
structure Error where
  issue : Issue
  causes : List Issue
  deriving DecidableEq

namespace Error

def of (i : Issue) : Error := ⟨i, []⟩

def chain (e : Error) : List Issue := e.issue :: e.causes

/-- The error as the cause of another issue. -/
def under (i : Issue) (e : Error) : Error := ⟨i, e.chain⟩

def message (e : Error) : String := e.issue.message

end Error

/-- The ends of a computation that is not answered at all. -/
inductive Crash where
  | addOverflow
  | mulOverflow
  /-- There is no space for a list as long as that. -/
  | capacityOverflow
  | illegalBoard (e : Error)
  | other (message : String)
  deriving DecidableEq

def Crash.message : Crash → String
  | addOverflow => "attempt to add with overflow"
  | mulOverflow => "attempt to multiply with overflow"
  | capacityOverflow => "capacity overflow"
  | illegalBoard e => "illegal board: " ++ e.message
  | other text => text

inductive Fault where
  | error (e : Error)
  | crash (c : Crash)
  deriving DecidableEq

namespace Fault

def of (i : Issue) : Fault := error (.of i)

/-- An error becomes the cause of another issue; a crash stays as it is. -/
def under (i : Issue) : Fault → Fault
  | error e => error (e.under i)
  | crash c => crash c

/-- An error that arises during an activity names the activity first. -/
def during (a : Activity) : Fault → Fault := under (.during a)

end Fault

abbrev Result (α : Type) := Except Fault α

namespace Result

variable {α : Type}

def fail (i : Issue) : Result α := .error (.of i)

def crash (c : Crash) : Result α := .error (.crash c)

def during (a : Activity) (r : Result α) : Result α := r.mapError (.during a)

end Result

end Sokoban
