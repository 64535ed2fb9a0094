import Sokoban.Proofs.Script.Wording
import Sokoban.Proofs.Text.Lines

/-!
# The lines of a model

A model, line by line: the heads of its sections, a line for each variable, and for each case of the
transition relation a line for the condition and one for each conjunct of the change, the last of
which ends the case.
-/

namespace Sokoban

open Text Formula

/-! ## A change over several lines -/

def System.margin : String := tab ++ tab ++ tab

def Formula.stackedFrom (line : String) : List String → List String
  | [] => [line ++ ";"]
  | t :: rest => line :: stackedFrom (System.margin ++ "& " ++ t) rest

def Formula.stackedLines (f : StepFormula) : List String :=
  match f.conjuncts.map lineText with
  | [] => [System.margin ++ ";"]
  | t :: rest => stackedFrom (System.margin ++ t) rest

namespace Formula

theorem unlines_stackedFrom (line : String) (texts : List String) :
    unlines (stackedFrom line texts) =
      line ++ String.join (texts.map fun t => "\n" ++ System.margin ++ "& " ++ t) ++ ";\n" := by
  induction texts generalizing line with
  | nil =>
      apply String.toList_inj.1
      simp [stackedFrom, unlines]
  | cons t rest ih =>
      rw [stackedFrom, unlines_cons, ih, List.map_cons, String.join_cons]
      simp only [String.append_assoc]

theorem unlines_stackedLines (f : StepFormula) :
    unlines f.stackedLines = System.margin ++ f.stackedText System.margin ++ ";\n" := by
  unfold stackedLines stackedText
  cases f.conjuncts.map lineText with
  | nil =>
      apply String.toList_inj.1
      simp [unlines]
  | cons t rest =>
      rw [intercalate_cons]
      simp only [unlines_stackedFrom, String.append_assoc]

end Formula

namespace System

/-! ## The parts of a model -/

def declarationLine (scope : Scope) (v : Var) : String :=
  tab ++ v.name ++ " : " ++ toString (scope.range v).1 ++ ".." ++ toString (scope.range v).2 ++ ";"

def headLine (condition : String) : String := tab ++ tab ++ condition ++ " :"

def caseLines (condition : String) (change : StepFormula) : List String :=
  headLine condition :: change.stackedLines

def cases (s : System) : List (String × StepFormula) :=
  s.rules.map (fun r => (Rule.condition r.limit r.requires, r.change)) ++
    [("TRUE", .app .and (s.scope.declared.map stays))]

def scriptLines (s : System) : List String :=
  "MODULE main" :: "VAR" :: (s.scope.declared.map (declarationLine s.scope) ++
    "INIT" :: (tab ++ s.start.wording ++ ";") ::
    "TRANS" :: (tab ++ "case") :: (s.cases.flatMap (fun c => caseLines c.1 c.2) ++
    [tab ++ "esac;", "LTLSPEC", tab ++ "!(F (" ++ boxesText s.goal.cells ++ "));"]))

theorem unlines_caseLines (condition : String) (change : StepFormula) :
    unlines (caseLines condition change) = caseText condition change := by
  rw [caseLines, unlines_cons, unlines_stackedLines]
  simp only [headLine, caseText, margin, String.append_assoc]
  rfl

theorem declarationLine_cell (scope : Scope) (p : Pos) :
    declarationLine scope (.cell p) = tab ++ (Var.cell p).name ++ " : 1..3;" := by
  have hlow : toString Content.empty.code = "1" := rfl
  have hhigh : toString Content.keeper.code = "3" := rfl
  apply String.toList_inj.1
  simp [declarationLine, Scope.range, hlow, hhigh]

theorem declarationLine_steps (scope : Scope) :
    declarationLine scope .steps =
      tab ++ ("steps_counter : 0.." ++ toString scope.limit) ++ ";" := by
  apply String.toList_inj.1
  simp [declarationLine, Scope.range, Var.name]

theorem declaration_eq (scope : Scope) (v : Var) :
    declaration scope v = declarationLine scope v ++ "\n" := by
  simp [declarationLine, declaration, String.append_assoc]

theorem unlines_declarations (scope : Scope) :
    unlines (scope.declared.map (declarationLine scope)) = listing scope := by
  rw [unlines, List.map_map, listing]
  congr 2
  funext v
  exact (declaration_eq scope v).symm

theorem wording_eq_unlines (s : System) : s.wording = unlines s.scriptLines := by
  have hcases : unlines (s.cases.flatMap fun c => caseLines c.1 c.2) =
      String.join (s.rules.map Rule.wording) ++ lastCase s.scope := by
    simp only [unlines_flatMap, unlines_caseLines, cases, List.map_append, List.map_map,
      List.map_singleton, String.join_append]
    rw [String.join_cons, String.join_nil, String.append_empty]
    rfl
  unfold scriptLines
  simp only [unlines_cons, unlines_append, unlines_declarations, hcases]
  delta wording
  apply String.toList_inj.1
  simp [tab, unlines]

end System

end Sokoban
