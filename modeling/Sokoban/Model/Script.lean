import Sokoban.Board.Reading
import Sokoban.Model.System

/-! # Systems in the language of the model checker

A system is written as one module: its variables with their ranges, the formula of the start, the
transition relation and the property. The transition relation is a list of cases, one for each rule
in order of priority, and a last one in which nothing changes.
-/

namespace Sokoban

namespace Formula

variable {V : Type} [Variable V]

/-- A formula as a line of its own: applications stand in parentheses. -/
def lineText (f : Formula V) : String := if f.isApp then parenthesized f.text else f.text

/-- A conjunction over several lines: each conjunct but the first begins a line with a margin and
the sign of conjunction. -/
def stackedText (margin : String) (f : Formula V) : String :=
  String.intercalate ("\n" ++ margin ++ "& ") (f.conjuncts.map lineText)

end Formula

namespace System

def tab : String := "    "

def declaration (scope : Scope) (v : Var) : String :=
  let range := scope.range v
  tab ++ v.name ++ " : " ++ toString range.1 ++ ".." ++ toString range.2 ++ ";\n"

def caseText (condition : String) (change : StepFormula) : String :=
  tab ++ tab ++ condition ++ " :\n" ++ tab ++ tab ++ tab ++
    change.stackedText (tab ++ tab ++ tab) ++ ";\n"

def ruleText (scope : Scope) (r : Rule) : Result String := do
  let guard ← Result.during (.renderingGuard r) (r.guard scope)
  let update ← Result.during (.renderingUpdate r) (r.update scope)
  return caseText guard.text update

def render (s : System) : Result String := do
  let cases ← s.rules.mapM (ruleText s.scope)
  let stutter ← s.scope.stutter
  let property ← s.property
  return "MODULE main\n" ++
    "VAR\n" ++ String.join (s.scope.declared.map (declaration s.scope)) ++
    "INIT\n" ++ tab ++ s.initial.text ++ ";\n" ++
    "TRANS\n" ++ tab ++ "case\n" ++ String.join cases ++ caseText "TRUE" stutter ++
    tab ++ "esac;\n" ++
    "LTLSPEC\n" ++ tab ++ property.text ++ ";\n"

def ofDrawing (drawing : String) (limit : Nat) : Result System := do
  let b ← Board.parse drawing
  compile b limit

def renderDrawing (drawing : String) (limit : Nat) : Result String := do
  let s ← ofDrawing drawing limit
  s.render

end System

end Sokoban
