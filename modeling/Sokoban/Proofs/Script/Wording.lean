import Sokoban.Model.Script
import Sokoban.Proofs.Model.Compiled
import Sokoban.Proofs.Model.Winning

/-!
# The text of a model, written out

What is written for each equation and for each conjunction of a model, and from these for the
cases of the transition relation and for the whole model.
-/

namespace Sokoban

namespace Text

theorem intercalate_cons (separator s : String) (texts : List String) :
    separator.intercalate (s :: texts) = s ++ String.join (texts.map fun t => separator ++ t) := by
  induction texts generalizing s with
  | nil => simp
  | cons t rest ih =>
      rw [String.intercalate_cons_cons, ih, List.map_cons, String.join_cons]
      simp only [String.append_assoc]

theorem intercalate_concat (separator s : String) (texts : List String) :
    separator.intercalate (texts ++ [s]) =
      String.join (texts.map fun t => t ++ separator) ++ s := by
  induction texts with
  | nil => simp
  | cons t rest ih =>
      rw [List.cons_append, String.intercalate_cons_of_ne_nil (by simp), ih, List.map_cons,
        String.join_cons]
      simp only [String.append_assoc]

end Text

namespace Formula

variable {V : Type} [Variable V] {f : Formula V} {args : List (Formula V)}

/-! ## Operators -/

theorem text_equation (v : V) (c : Const) :
    (app .eq [var v, const c]).text = Variable.name v ++ " = " ++ c.text := by
  have hsep : " " ++ Op.eq.symbol ++ " " = " = " := rfl
  simp [text, argumentTexts, layout, hsep]

theorem text_inequation (v : V) (c : Const) :
    (app .lt [var v, const c]).text = Variable.name v ++ " < " ++ c.text := by
  have hsep : " " ++ Op.lt.symbol ++ " " = " < " := rfl
  simp [text, argumentTexts, layout, hsep]

theorem argumentText_of_isApp {op : Op} (hop : ∀ inner, op.parenthesizes inner = true)
    (h : f.isApp = true) : argumentText op f = parenthesized f.text := by
  cases f with
  | const c => cases h
  | var v => cases h
  | app inner args => exact if_pos (hop inner)

/-- Below a conjunction every application stands in parentheses. -/
theorem text_and (hne : args ≠ []) (h : ∀ g ∈ args, g.isApp = true) :
    (app .and args).text = " & ".intercalate (args.map fun g => parenthesized g.text) := by
  have hargs : argumentTexts .and args = args.map fun g => parenthesized g.text := by
    rw [argumentTexts_eq_map]
    exact List.map_congr_left fun g hg => argumentText_of_isApp (fun _ => rfl) (h g hg)
  simp [text, layout, hargs, hne]

theorem text_never (h : f.isApp = true) :
    (app .not [app .eventually [f]]).text = "!(F (" ++ f.text ++ "))" := by
  have hinner : argumentTexts .eventually [f] = [parenthesized f.text] := by
    rw [argumentTexts_eq_map, List.map_singleton, argumentText_of_isApp (fun _ => rfl) h]
  have houter : argumentTexts .not [app .eventually [f]] =
      [parenthesized (app .eventually [f]).text] := by
    rw [argumentTexts_eq_map, List.map_singleton, argumentText_of_isApp (fun _ => rfl) rfl]
  rw [text, houter, text, hinner]
  apply String.toList_inj.1
  simp [layout, Op.symbol, parenthesized]

/-! ## The formulas of a model -/

def equationText (e : Pos × Content) : String :=
  parenthesized ((Var.cell e.1).name ++ " = " ++ e.2.text)

theorem parenthesized_cellIs (p : Pos) (c : Content) :
    parenthesized (cellIs p c).text = equationText (p, c) :=
  congrArg parenthesized (text_equation (Var.cell p) (.content c))

/-- A box on each of some cells. Only several of them are joined by signs of conjunction. -/
def boxesText : List Pos → String
  | [] => "TRUE"
  | [p] => (Var.cell p).name ++ " = " ++ Content.box.text
  | p :: q :: rest =>
    equationText (p, .box) ++
      String.join ((q :: rest).map fun r => " & " ++ equationText (r, .box))

theorem text_boxesOn (cells : List Pos) : (boxesOn cells).text = boxesText cells := by
  match cells with
  | [] => simp [boxesOn, text, argumentTexts, layout, boxesText]
  | [p] =>
      rw [boxesOn, cellIs, text_equation]
      rfl
  | p :: q :: rest =>
      have happ : ∀ f ∈ (p :: q :: rest).map (fun p => cellIs p .box), f.isApp = true :=
        List.forall_mem_map.2 fun _ _ => rfl
      rw [boxesOn, text_and (by simp) happ, List.map_map, List.map_cons, Text.intercalate_cons,
        List.map_map]
      · simp only [Function.comp_def, parenthesized_cellIs, boxesText]
      · simp

end Formula

open Formula

def State.wording (s : State) : String :=
  String.join (s.cells.entries.map fun e => equationText e ++ " & ") ++
    parenthesized (Var.steps.name ++ " = " ++ toString s.steps)

theorem State.text_formula {s : State} {scope : Scope} {f : StateFormula}
    (hkeys : ∀ p ∈ s.cells.keys, p ∈ scope.cells) (hf : s.formula scope = .ok f) :
    f.text = s.wording := by
  rw [State.formula_eq hkeys] at hf
  obtain rfl := Except.ok.inj hf
  have happ : ∀ f ∈ s.cells.entries.map (fun e => cellIs e.1 e.2) ++ [stepsAre s.steps],
      f.isApp = true := by
    refine List.forall_mem_append.2 ⟨List.forall_mem_map.2 fun _ _ => rfl, ?_⟩
    exact List.forall_mem_singleton.2 rfl
  rw [text_and (by simp) happ, List.map_append, List.map_singleton, Text.intercalate_concat,
    List.map_map, List.map_map]
  simp only [Function.comp_def, parenthesized_cellIs, State.wording]
  rw [stepsAre, text_equation]
  rfl

namespace Rule

def condition (limit : Nat) (requires : List (Pos × Content)) : String :=
  parenthesized (Var.steps.name ++ " < " ++ toString limit) ++
    String.join (requires.map fun e => " & " ++ equationText e)

def change (r : Rule) : StepFormula :=
  .app .and (r.effect.map (fun e => becomes e.1 e.2) ++ counts :: r.frame.map fun p =>
    stays (.cell p))

def wording (r : Rule) : String := System.caseText (condition r.limit r.requires) r.change

theorem text_guard (limit : Nat) (requires : List (Pos × Content)) :
    (app .and (stepsBelow limit :: requires.map fun e => cellIs e.1 e.2)).text =
      condition limit requires := by
  have happ : ∀ f ∈ stepsBelow limit :: requires.map (fun e => cellIs e.1 e.2),
      f.isApp = true :=
    List.forall_mem_cons.2 ⟨rfl, List.forall_mem_map.2 fun _ _ => rfl⟩
  rw [text_and (by simp) happ, List.map_cons, Text.intercalate_cons, List.map_map, List.map_map]
  simp only [Function.comp_def, parenthesized_cellIs, condition]
  rw [stepsBelow, text_inequation]
  rfl

theorem ruleText_eq {r : Rule} {scope : Scope} (h : r.Partitions scope) :
    System.ruleText scope r = .ok r.wording := by
  have hassigned : ∀ p ∈ r.assigned, p ∈ scope.cells := fun p hp => (h.covers p).2 (.inl hp)
  have hframe : ∀ p ∈ r.frame, p ∈ scope.cells := fun p hp => (h.covers p).2 (.inr hp)
  unfold System.ruleText
  rw [guard_eq hassigned, Result.during_ok, Result.ok_bind, update_eq hassigned hframe,
    Result.during_ok, Result.ok_bind, text_guard]
  rfl

end Rule

namespace System

def listing (scope : Scope) : String := String.join (scope.declared.map (declaration scope))

def lastCase (scope : Scope) : String :=
  caseText "TRUE" (.app .and (scope.declared.map stays))

def wording (s : System) : String :=
  "MODULE main\nVAR\n" ++ (listing s.scope ++ ("INIT\n    " ++ (s.start.wording ++
    (";\nTRANS\n    case\n" ++ (String.join (s.rules.map Rule.wording) ++ (lastCase s.scope ++
      ("    esac;\nLTLSPEC\n    !(F (" ++ (boxesText s.goal.cells ++ "));\n"))))))))

theorem BuiltFrom.render_eq {s : System} {b : Board} {limit : Nat} {keep : Option Pos}
    {goal : Goal} (h : s.BuiltFrom b limit keep goal) (hb : b.Fits)
    (hgoal : ∀ p ∈ goal.cells, p ∈ s.scope.cells) : s.render = .ok s.wording := by
  have hcases : s.rules.mapM (ruleText s.scope) = .ok (s.rules.map Rule.wording) :=
    Result.mapM_eq_map fun r hr => Rule.ruleText_eq (h.partitions hb hr)
  have hproperty : s.property = .ok (.app .not [.app .eventually [boxesOn s.goal.cells]]) :=
    Goal.property_eq (h.goal.symm ▸ hgoal)
  have happ : (boxesOn s.goal.cells).isApp = true :=
    boxesOn_cases (P := fun f => f.isApp = true) _ (fun _ _ => rfl) rfl
  have hstart : s.initial.text = s.start.wording :=
    State.text_formula (fun p hp => h.keys_start ▸ hp) h.initial
  unfold render
  rw [hcases, Result.ok_bind, Scope.stutter_eq, Result.ok_bind, hproperty, Result.ok_bind,
    text_never happ, text_boxesOn, hstart]
  refine congrArg Except.ok (String.toList_inj.1 ?_)
  -- the equation of `wording` itself takes long to make
  delta wording
  simp [listing, lastCase, tab]

end System

end Sokoban
