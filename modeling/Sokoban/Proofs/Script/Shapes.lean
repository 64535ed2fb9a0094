import Mathlib.Data.List.Basic
import Sokoban.Proofs.Formula.Atoms
import Sokoban.Proofs.Script.Lines

/-!
# How the lines of a model begin and end

The margin of a line and what it ends with tell the condition of a case and its last line from all
other lines, whatever formulas are printed in them.
-/

namespace Sokoban

open Text Formula

/-! ## Cases -/

/-- The lines of a case: that of its condition, those of its change but the last one, the last. -/
structure Arm where
  head : List Char
  inner : List (List Char)
  closing : List Char

namespace Arm

def lines (a : Arm) : List (List Char) := a.head :: (a.inner ++ [a.closing])

def isHead (line : List Char) : Bool := beginsWith "        " line && endsWith " :" line

/-- Whether a line is the last one of a case, by its margin and its end. -/
def isClosing (line : List Char) : Bool := beginsWith "            " line && endsWith ";" line

structure IsShaped (a : Arm) : Prop where
  head : Shaped 8 " :" a.head
  inner : ∀ line ∈ a.inner, Shaped 12 ")" line
  closing : Shaped 12 ");" a.closing

variable {a : Arm} {arms : List Arm} {p : List Char → Bool} {margin : Nat} {tail : String}
  {line : List Char}

theorem isHead_eq (h : Shaped margin tail line) :
    isHead line = (decide (8 ≤ margin) && endsWith " :" line) := by
  rw [isHead, h.beginsWith_eq (n := 8) (by decide)]

theorem isClosing_eq (h : Shaped margin tail line) :
    isClosing line = (decide (12 ≤ margin) && endsWith ";" line) := by
  rw [isClosing, h.beginsWith_eq (n := 12) (by decide)]

theorem IsShaped.exists_margin (h : a.IsShaped) :
    ∀ line ∈ a.lines, ∃ margin tail, 8 ≤ margin ∧ Shaped margin tail line := by
  refine List.forall_mem_cons.2 ⟨⟨8, _, Nat.le_refl 8, h.head⟩, List.forall_mem_append.2 ⟨?_, ?_⟩⟩
  · exact fun line hline => ⟨12, _, by decide, h.inner line hline⟩
  · exact List.forall_mem_singleton.2 ⟨12, _, by decide, h.closing⟩

theorem filter_lines (hinner : ∀ line ∈ a.inner, p line = false) :
    a.lines.filter p = [a.head].filter p ++ [a.closing].filter p := by
  have hnone : a.inner.filter p = [] :=
    List.filter_eq_nil_iff.2 fun line hline => by simp [hinner line hline]
  rw [lines, ← List.singleton_append, List.filter_append, List.filter_append, hnone,
    List.nil_append]

theorem IsShaped.filter_isHead (h : a.IsShaped) : a.lines.filter isHead = [a.head] := by
  have hhead : isHead a.head = true := by
    rw [isHead_eq h.head, h.head.endsWith_eq_true (by decide)]
    rfl
  have hinner : ∀ line ∈ a.inner, isHead line = false := fun line hline => by
    rw [isHead_eq (h.inner line hline),
      (h.inner line hline).endsWith_eq_false (by decide) (by decide), Bool.and_false]
  have hclosing : isHead a.closing = false := by
    rw [isHead_eq h.closing, h.closing.endsWith_eq_false (by decide) (by decide), Bool.and_false]
  rw [filter_lines hinner, List.filter_cons_of_pos hhead,
    List.filter_cons_of_neg (by simp [hclosing])]
  rfl

theorem IsShaped.filter_isClosing (h : a.IsShaped) : a.lines.filter isClosing = [a.closing] := by
  have hhead : isClosing a.head = false := by
    rw [isClosing_eq h.head]
    rfl
  have hinner : ∀ line ∈ a.inner, isClosing line = false := fun line hline => by
    rw [isClosing_eq (h.inner line hline),
      (h.inner line hline).endsWith_eq_false (by decide) (by decide), Bool.and_false]
  have hclosing : isClosing a.closing = true := by
    rw [isClosing_eq h.closing, h.closing.endsWith_eq_true (by decide)]
    rfl
  rw [filter_lines hinner, List.filter_cons_of_neg (by simp [hhead]),
    List.filter_cons_of_pos hclosing]
  rfl

/-- No line of a case is told as the declaration of a cell. -/
theorem IsShaped.endsWith_declaration (h : a.IsShaped) :
    ∀ line ∈ a.lines, endsWith ": 1..3;" line = false := by
  refine List.forall_mem_cons.2 ⟨?_, List.forall_mem_append.2 ⟨fun line hline => ?_, ?_⟩⟩
  · exact h.head.endsWith_eq_false (by decide) (by decide)
  · exact (h.inner line hline).endsWith_eq_false (by decide) (by decide)
  · exact List.forall_mem_singleton.2 (h.closing.endsWith_eq_false (by decide) (by decide))

theorem filter_flatMap_eq_map {f : Arm → List Char} (h : ∀ a ∈ arms, a.lines.filter p = [f a]) :
    (arms.flatMap lines).filter p = arms.map f := by
  rw [List.filter_flatMap, List.map_eq_flatMap]
  exact List.flatMap_congr h

theorem filter_flatMap_eq_nil (h : ∀ a ∈ arms, ∀ line ∈ a.lines, p line = false) :
    (arms.flatMap lines).filter p = [] := by
  refine List.filter_eq_nil_iff.2 fun line hline => ?_
  obtain ⟨a, ha, hline⟩ := List.mem_flatMap.1 hline
  simp [h a ha line hline]

end Arm

/-! ## The lines of a change -/

namespace Formula

/-- A line that ends in a parenthesis, as far as a conjunct is still to come. -/
theorem shaped_parenthesized {sign : String} {c : Char} (u : String)
    (hsign : (sign ++ "(").toList.head? = some c) (hc : c ≠ ' ') :
    Shaped 12 ")" (System.margin ++ sign ++ parenthesized u).toList := by
  have htext : ((sign ++ "(") ++ u).toList.head? = some c := by
    rw [String.toList_append, List.head?_append, hsign]
    rfl
  have hshaped : Shaped 12 ")" (System.margin ++ (sign ++ "(" ++ u) ++ ")").toList :=
    .of_text (by decide) htext hc
  simpa only [parenthesized, String.append_assoc] using hshaped

theorem exists_stackedFrom {line : String} {texts : List String}
    (hline : Shaped 12 ")" line.toList) (h : ∀ t ∈ texts, ∃ u, t = parenthesized u) :
    ∃ inner last, (stackedFrom line texts).map String.toList = inner ++ [last] ∧
      (∀ l ∈ inner, Shaped 12 ")" l) ∧ Shaped 12 ");" last := by
  induction texts generalizing line with
  | nil =>
      obtain ⟨⟨c, rest, hstart, hc⟩, before, hending⟩ := hline
      refine ⟨[], _, rfl, List.forall_mem_nil _, ⟨c, rest ++ [';'], ?_, hc⟩, before, ?_⟩
      · simp [hstart]
      · simp [← hending]
  | cons t rest ih =>
      obtain ⟨⟨u, rfl⟩, hrest⟩ := List.forall_mem_cons.1 h
      have hsign : ("& " ++ "(").toList.head? = some '&' := by decide
      have hnext := shaped_parenthesized u hsign (by decide)
      obtain ⟨inner, last, hlines, hinner, hlast⟩ := ih hnext hrest
      refine ⟨line.toList :: inner, last, ?_, List.forall_mem_cons.2 ⟨hline, hinner⟩, hlast⟩
      rw [stackedFrom, List.map_cons, hlines]
      rfl

theorem exists_stackedLines {args : List StepFormula} (hne : args ≠ [])
    (h : ∀ g ∈ args, g.isApp = true) :
    ∃ inner last, (app .and args).stackedLines.map String.toList = inner ++ [last] ∧
      (∀ l ∈ inner, Shaped 12 ")" l) ∧ Shaped 12 ");" last := by
  cases args with
  | nil => exact absurd rfl hne
  | cons f rest =>
      obtain ⟨hf, hrest⟩ := List.forall_mem_cons.1 h
      have htexts : ∀ t ∈ rest.map lineText, ∃ u, t = parenthesized u :=
        List.forall_mem_map.2 fun g hg => ⟨_, if_pos (hrest g hg)⟩
      have hsign : ("" ++ "(").toList.head? = some '(' := by decide
      have hfirst := shaped_parenthesized f.text hsign (by decide)
      have hline : System.margin ++ "" ++ parenthesized f.text = System.margin ++ f.lineText := by
        rw [String.append_empty, lineText, if_pos hf]
      exact exists_stackedFrom (hline ▸ hfirst) htexts

end Formula

namespace System

structure IsArm (c : String × StepFormula) (a : Arm) : Prop where
  shaped : a.IsShaped
  head : a.head = (headLine c.1).toList
  lines : (caseLines c.1 c.2).map String.toList = a.lines

theorem exists_isArm {condition : String} {args : List StepFormula} {c : Char}
    (hcondition : condition.toList.head? = some c) (hc : c ≠ ' ') (hne : args ≠ [])
    (h : ∀ g ∈ args, g.isApp = true) : ∃ a, IsArm (condition, .app .and args) a := by
  obtain ⟨inner, last, hlines, hinner, hlast⟩ := exists_stackedLines hne h
  have hhead : Shaped 8 " :" (headLine condition).toList :=
    .of_text (by decide) hcondition hc
  refine ⟨⟨(headLine condition).toList, inner, last⟩, ⟨hhead, hinner, hlast⟩, rfl, ?_⟩
  rw [caseLines, List.map_cons, hlines]
  rfl

/-- In every case of a system the condition begins with no space, and the change is a conjunction of
applications. -/
theorem forall_mem_cases {s : System} {P : String × StepFormula → Prop}
    (h : ∀ (condition : String) (c : Char) (args : List StepFormula),
      condition.toList.head? = some c → c ≠ ' ' → args ≠ [] → (∀ g ∈ args, g.isApp = true) →
        P (condition, .app .and args)) : ∀ c ∈ s.cases, P c := by
  refine List.forall_mem_append.2 ⟨List.forall_mem_map.2 fun r _ => ?_,
    List.forall_mem_singleton.2 ?_⟩
  · have hcondition : (Rule.condition r.limit r.requires).toList.head? = some '(' := by
      simp [Rule.condition, parenthesized]
    refine h _ '(' _ hcondition (by decide) (by simp) ?_
    refine List.forall_mem_append.2 ⟨List.forall_mem_map.2 fun _ _ => rfl, ?_⟩
    exact List.forall_mem_cons.2 ⟨rfl, List.forall_mem_map.2 fun _ _ => rfl⟩
  · have htrue : "TRUE".toList.head? = some 'T' := by decide
    exact h _ 'T' _ htrue (by decide) (by simp [Scope.declared])
      (List.forall_mem_map.2 fun _ _ => rfl)

theorem exists_isArm_of_mem_cases {s : System} : ∀ c ∈ s.cases, ∃ a, IsArm c a :=
  forall_mem_cases fun _ _ _ hcondition hc hne happ => exists_isArm hcondition hc hne happ

theorem exists_arms {cases : List (String × StepFormula)} (h : ∀ c ∈ cases, ∃ a, IsArm c a) :
    ∃ arms : List Arm, (∀ a ∈ arms, a.IsShaped) ∧
      arms.map (·.head) = cases.map (fun c => (headLine c.1).toList) ∧
      (cases.flatMap fun c => caseLines c.1 c.2).map String.toList = arms.flatMap Arm.lines := by
  induction cases with
  | nil => exact ⟨[], List.forall_mem_nil _, rfl, rfl⟩
  | cons c rest ih =>
      obtain ⟨⟨a, ha⟩, hrest⟩ := List.forall_mem_cons.1 h
      obtain ⟨arms, harms, hheads, hlines⟩ := ih hrest
      refine ⟨a :: arms, List.forall_mem_cons.2 ⟨ha.shaped, harms⟩, ?_, ?_⟩
      · rw [List.map_cons, List.map_cons, ha.head, hheads]
      · rw [List.flatMap_cons, List.map_append, ha.lines, hlines, List.flatMap_cons]

/-! ## The other lines -/

theorem shaped_declaration_cell (scope : Scope) (p : Pos) :
    Shaped 4 " : 1..3;" (declarationLine scope (.cell p)).toList := by
  have hname : (Var.cell p).name.toList.head? = some 'p' := by simp [Var.toList_name_cell]
  rw [declarationLine_cell]
  exact .of_text (by decide) hname (by decide)

theorem shaped_declaration_steps (scope : Scope) :
    Shaped 4 ";" (declarationLine scope .steps).toList := by
  have hname : ("steps_counter : 0.." ++ toString scope.limit).toList.head? = some 's' := by simp
  rw [declarationLine_steps]
  exact .of_text (by decide) hname (by decide)

/-- The range of the counter begins with zero, so its line is told from those of the cells. -/
theorem endsWith_declaration_steps (scope : Scope) :
    endsWith ": 1..3;" (declarationLine scope .steps).toList = false := by
  refine Bool.eq_false_iff.2 fun hends => ?_
  obtain ⟨before, hline⟩ := List.isSuffixOf_iff_suffix.1 hends
  have hreverse := congrArg List.reverse hline
  have hdots : '3' :: '.' :: ['.', '1', ' ', ':'] ++ before.reverse =
      (toString scope.limit).toList.reverse ++ '.' :: "    steps_counter : 0.".toList.reverse := by
    simpa [declarationLine, Scope.range, tab, Var.name] using hreverse
  have hdigits : '.' ∉ (toString scope.limit).toList.reverse := by
    rw [List.mem_reverse]
    exact not_mem_toList_toString rfl _
  obtain ⟨-, hrest⟩ := append_cons_inj (a := ['3']) (by decide) hdigits hdots
  simp at hrest

theorem shaped_start (s : System) : Shaped 4 ");" (tab ++ s.start.wording ++ ";").toList := by
  have hline : tab ++ s.start.wording ++ ";" = tab ++
      (String.join (s.start.cells.entries.map fun e => equationText e ++ " & ") ++
        ("(" ++ (Var.steps.name ++ " = " ++ toString s.start.steps))) ++ ");" := by
    apply String.toList_inj.1
    simp [State.wording, parenthesized]
  have hfirst : (String.join (s.start.cells.entries.map fun e => equationText e ++ " & ") ++
      ("(" ++ (Var.steps.name ++ " = " ++ toString s.start.steps))).toList.head? = some '(' := by
    cases s.start.cells.entries with
    | nil => simp
    | cons e rest => simp [equationText, parenthesized]
  rw [hline]
  exact .of_text (by decide) hfirst (by decide)

theorem shaped_property (cells : List Pos) :
    Shaped 4 ");" (tab ++ "!(F (" ++ boxesText cells ++ "));").toList := by
  have hline : tab ++ "!(F (" ++ boxesText cells ++ "));" =
      tab ++ ("!(F (" ++ boxesText cells ++ ")") ++ ");" := by
    apply String.toList_inj.1
    simp
  have hfirst : ("!(F (" ++ boxesText cells ++ ")").toList.head? = some '!' := by simp
  rw [hline]
  exact .of_text (by decide) hfirst (by decide)

end System

end Sokoban
