import Mathlib.Data.List.Nodup
import Sokoban.Proofs.Board.Drawn
import Sokoban.Proofs.Model.Totality
import Sokoban.Proofs.Script.Names
import Sokoban.Proofs.Script.Shapes

/-!
# The layout of a model

The heads of the sections, the declarations and the cases of the transition relation are found by
looking at how lines begin and end: nothing that is printed elsewhere can be taken for one of them.
Every variable that a model names is declared by one line.
-/

namespace Sokoban

open Text Formula

def Var.declares (name : List Char) (line : List Char) : Bool :=
  (System.tab.toList ++ name ++ " : ".toList).isPrefixOf line

namespace System

structure LaidOut (s : System) (text : String) : Prop where
  sections : (lines text.toList).filter (fun line => !beginsWith " " line) =
    ["MODULE main", "VAR", "INIT", "TRANS", "LTLSPEC"].map String.toList
  cells : (lines text.toList).filter (endsWith ": 1..3;") =
    s.scope.cells.toList.map fun p => ("    " ++ (Var.cell p).name ++ " : 1..3;").toList
  rowMajor : s.scope.cells.toList.Pairwise (· < ·)
  names : (s.scope.cells.toList.map fun p => (Var.cell p).name).Nodup
  heads : ∃ guards, s.rules.mapM (·.guard s.scope) = .ok guards ∧
    (lines text.toList).filter Arm.isHead =
      (guards.map Formula.text ++ ["TRUE"]).map fun c => ("        " ++ c ++ " :").toList
  length_heads : ((lines text.toList).filter Arm.isHead).length = s.rules.length + 1
  length_closings : ((lines text.toList).filter Arm.isClosing).length = s.rules.length + 1
  arms : ∃ arms : List Arm,
    linesBetween "    case" "    esac;" (lines text.toList) = arms.flatMap Arm.lines ∧
      (lines text.toList).filter Arm.isHead = arms.map (·.head) ∧
      (lines text.toList).filter Arm.isClosing = arms.map (·.closing)
  declared : ∀ w ∈ identifiers text.toList, Var.isLikely w = true →
    ((linesBetween "VAR" "INIT" (lines text.toList)).filter (Var.declares w)).length = 1

def declarationLines (scope : Scope) : List (List Char) :=
  scope.declared.map fun v => (declarationLine scope v).toList

def linesWith (s : System) (arms : List Arm) : List (List Char) :=
  ["MODULE main", "VAR"].map String.toList ++ (declarationLines s.scope ++
    (["INIT"].map String.toList ++ ((tab ++ s.start.wording ++ ";").toList ::
    (["TRANS", "    case"].map String.toList ++ (arms.flatMap Arm.lines ++
    (["    esac;", "LTLSPEC"].map String.toList ++
    [(tab ++ "!(F (" ++ boxesText s.goal.cells ++ "));").toList]))))))

theorem map_scriptLines {s : System} {arms : List Arm}
    (h : (s.cases.flatMap fun c => caseLines c.1 c.2).map String.toList = arms.flatMap Arm.lines) :
    s.scriptLines.map String.toList = s.linesWith arms := by
  simp only [scriptLines, linesWith, declarationLines, List.map_cons, List.map_append, h,
    List.map_map, List.map_nil, List.cons_append, List.nil_append]
  rfl

/-! ## Filtering lines -/

/-- What is found among the lines of a model, if the formulas of the start and of the property are
not found. -/
theorem filter_linesWith {s : System} {arms : List Arm} {p : List Char → Bool}
    (hformula : ∀ line, Shaped 4 ");" line → p line = false) :
    (s.linesWith arms).filter p =
      (["MODULE main", "VAR"].map String.toList).filter p ++ ((declarationLines s.scope).filter p ++
        ((["INIT"].map String.toList).filter p ++
        ((["TRANS", "    case"].map String.toList).filter p ++
        ((arms.flatMap Arm.lines).filter p ++
        (["    esac;", "LTLSPEC"].map String.toList).filter p)))) := by
  have hstart := Bool.eq_false_iff.1 (hformula _ (shaped_start s))
  have hproperty := Bool.eq_false_iff.1 (hformula _ (shaped_property s.goal.cells))
  unfold linesWith
  simp only [List.filter_append]
  rw [List.filter_cons_of_neg hstart, List.filter_append, List.filter_append, List.filter_append,
    List.filter_cons_of_neg hproperty, List.filter_nil, List.append_nil]

theorem shaped_of_mem_declarationLines {scope : Scope} :
    ∀ line ∈ declarationLines scope, Shaped 4 ";" line := by
  refine List.forall_mem_map.2 fun v _ => ?_
  cases v with
  | cell p => exact (shaped_declaration_cell scope p).weaken (by decide)
  | steps => exact shaped_declaration_steps scope

theorem filter_declarationLines_eq_nil {scope : Scope} {p : List Char → Bool}
    (hmargin : ∀ tail line, Shaped 4 tail line → p line = false) :
    (declarationLines scope).filter p = [] := by
  refine List.filter_eq_nil_iff.2 fun line hline => ?_
  exact Bool.eq_false_iff.1 (hmargin _ line (shaped_of_mem_declarationLines line hline))

theorem filter_declarationLines (scope : Scope) :
    (declarationLines scope).filter (endsWith ": 1..3;") =
      scope.cells.toList.map fun p => ("    " ++ (Var.cell p).name ++ " : 1..3;").toList := by
  have hcells : ∀ line ∈ scope.cells.toList.map fun p =>
      (declarationLine scope (.cell p)).toList, endsWith ": 1..3;" line = true :=
    List.forall_mem_map.2 fun p _ =>
      (shaped_declaration_cell scope p).endsWith_eq_true (by decide)
  have hsteps := Bool.eq_false_iff.1 (endsWith_declaration_steps scope)
  unfold declarationLines Scope.declared
  rw [List.map_append, List.map_map, List.filter_append, List.map_singleton,
    List.filter_cons_of_neg hsteps, List.filter_nil, List.append_nil]
  refine (List.filter_eq_self.2 hcells).trans (List.map_congr_left fun p _ => ?_)
  rw [declarationLine_cell]
  rfl

variable {s : System} {arms : List Arm}

theorem filter_sections (h : ∀ a ∈ arms, a.IsShaped) :
    (s.linesWith arms).filter (fun line => !beginsWith " " line) =
      ["MODULE main", "VAR", "INIT", "TRANS", "LTLSPEC"].map String.toList := by
  have hmargin : ∀ margin tail line, Shaped margin tail line → 1 ≤ margin →
      (!beginsWith " " line) = false := by
    intro margin tail line hshaped hpos
    rw [hshaped.beginsWith_eq (n := 1) (by decide), decide_eq_true hpos]
    rfl
  have harms : (arms.flatMap Arm.lines).filter (fun line => !beginsWith " " line) = [] := by
    refine Arm.filter_flatMap_eq_nil fun a ha line hline => ?_
    obtain ⟨margin, tail, hpos, hshaped⟩ := (h a ha).exists_margin line hline
    exact hmargin _ _ _ hshaped (by omega)
  rw [filter_linesWith fun line hline => hmargin _ _ _ hline (by decide), harms,
    filter_declarationLines_eq_nil fun tail line hline => hmargin _ _ _ hline (by decide)]
  decide

/-- Where no line with a fixed text is found, there are only declarations and cases. -/
theorem filter_linesWith_of_fixed {p : List Char → Bool}
    (hformula : ∀ line, Shaped 4 ");" line → p line = false)
    (hfixed : ∀ line ∈ ["MODULE main", "VAR", "INIT", "TRANS", "    case", "    esac;", "LTLSPEC"],
      p line.toList = false) :
    (s.linesWith arms).filter p =
      (declarationLines s.scope).filter p ++ (arms.flatMap Arm.lines).filter p := by
  have hnone : ∀ ls : List String, (∀ line ∈ ls, line ∈
      ["MODULE main", "VAR", "INIT", "TRANS", "    case", "    esac;", "LTLSPEC"]) →
      (ls.map String.toList).filter p = [] := fun ls hls =>
    List.filter_eq_nil_iff.2 <| List.forall_mem_map.2 fun line hline =>
      Bool.eq_false_iff.1 (hfixed line (hls line hline))
  rw [filter_linesWith hformula, hnone _ (by decide), hnone _ (by decide), hnone _ (by decide),
    hnone _ (by decide)]
  simp only [List.nil_append, List.append_nil]

theorem filter_cells (h : ∀ a ∈ arms, a.IsShaped) :
    (s.linesWith arms).filter (endsWith ": 1..3;") =
      s.scope.cells.toList.map fun p => ("    " ++ (Var.cell p).name ++ " : 1..3;").toList := by
  have hformula : ∀ line, Shaped 4 ");" line → endsWith ": 1..3;" line = false :=
    fun line hline => hline.endsWith_eq_false (by decide) (by decide)
  rw [filter_linesWith_of_fixed hformula (by decide), filter_declarationLines,
    Arm.filter_flatMap_eq_nil fun a ha => (h a ha).endsWith_declaration, List.append_nil]

theorem filter_isHead (h : ∀ a ∈ arms, a.IsShaped) :
    (s.linesWith arms).filter Arm.isHead = arms.map (·.head) := by
  have hmargin : ∀ tail line, Shaped 4 tail line → Arm.isHead line = false :=
    fun tail line hline => Arm.isHead_eq hline
  rw [filter_linesWith_of_fixed (hmargin _) (by decide), filter_declarationLines_eq_nil hmargin,
    Arm.filter_flatMap_eq_map fun a ha => (h a ha).filter_isHead, List.nil_append]

theorem filter_isClosing (h : ∀ a ∈ arms, a.IsShaped) :
    (s.linesWith arms).filter Arm.isClosing = arms.map (·.closing) := by
  have hmargin : ∀ tail line, Shaped 4 tail line → Arm.isClosing line = false :=
    fun tail line hline => Arm.isClosing_eq hline
  rw [filter_linesWith_of_fixed (hmargin _) (by decide), filter_declarationLines_eq_nil hmargin,
    Arm.filter_flatMap_eq_map fun a ha => (h a ha).filter_isClosing, List.nil_append]

/-! ## Sections -/

theorem not_mem_declarationLines {scope : Scope} {line : String}
    (h : endsWith ";" line.toList = false) : line.toList ∉ declarationLines scope :=
  fun hmem => (shaped_of_mem_declarationLines _ hmem).ne h rfl

theorem linesBetween_var_init (s : System) (arms : List Arm) :
    linesBetween "VAR" "INIT" (s.linesWith arms) = declarationLines s.scope := by
  have hbefore : "VAR".toList ∉ ["MODULE main".toList] := by decide
  exact linesBetween_append hbefore (not_mem_declarationLines (by decide))

theorem linesBetween_case_esac (h : ∀ a ∈ arms, a.IsShaped) :
    linesBetween "    case" "    esac;" (s.linesWith arms) = arms.flatMap Arm.lines := by
  have hstart : Shaped 4 ";" (tab ++ s.start.wording ++ ";").toList :=
    (shaped_start s).weaken (by decide)
  have hbefore : "    case".toList ∉ ["MODULE main", "VAR"].map String.toList ++
      (declarationLines s.scope ++ ["INIT".toList, (tab ++ s.start.wording ++ ";").toList,
        "TRANS".toList]) := by
    have hne : "    case".toList ≠ (tab ++ s.start.wording ++ ";").toList := hstart.ne (by decide)
    have hdeclared : "    case".toList ∉ declarationLines s.scope :=
      not_mem_declarationLines (by decide)
    rw [List.mem_append, List.mem_append, List.mem_cons, List.mem_cons]
    exact not_or.2 ⟨by decide, not_or.2 ⟨hdeclared,
      not_or.2 ⟨by decide, not_or.2 ⟨hne, by decide⟩⟩⟩⟩
  have harms : "    esac;".toList ∉ arms.flatMap Arm.lines := by
    intro hmem
    obtain ⟨a, ha, hline⟩ := List.mem_flatMap.1 hmem
    obtain ⟨margin, tail, hpos, hshaped⟩ := (h a ha).exists_margin _ hline
    have hbegins : beginsWith "        " "    esac;".toList = decide (8 ≤ margin) :=
      hshaped.beginsWith_eq (by decide)
    rw [decide_eq_true hpos] at hbegins
    cases hbegins
  have hlines : s.linesWith arms = ["MODULE main", "VAR"].map String.toList ++
      (declarationLines s.scope ++ ["INIT".toList, (tab ++ s.start.wording ++ ";").toList,
        "TRANS".toList]) ++ "    case".toList :: (arms.flatMap Arm.lines ++ "    esac;".toList ::
          ["LTLSPEC".toList, (tab ++ "!(F (" ++ boxesText s.goal.cells ++ "));").toList]) := by
    simp [linesWith]
  rw [hlines]
  exact linesBetween_append hbefore harms

/-! ## Declarations -/

def rangeText (scope : Scope) (v : Var) : String :=
  toString (scope.range v).1 ++ ".." ++ toString (scope.range v).2 ++ ";"

theorem toList_declarationLine (scope : Scope) (v : Var) :
    (declarationLine scope v).toList =
      tab.toList ++ (v.name.toList ++ ' ' :: (": ".toList ++ (rangeText scope v).toList)) := by
  simp [declarationLine, rangeText]

theorem declares_iff {scope : Scope} {v w : Var} :
    Var.declares v.name.toList (declarationLine scope w).toList = true ↔ w = v := by
  have hspace (u : Var) : ' ' ∉ u.name.toList :=
    fun hmem => absurd (u.isName_name.chars _ hmem) (by decide)
  have hhead : tab.toList ++ v.name.toList ++ " : ".toList =
      tab.toList ++ (v.name.toList ++ ' ' :: ": ".toList) := by simp
  rw [Var.declares, List.isPrefixOf_iff_prefix, toList_declarationLine, hhead,
    List.prefix_append_right_inj]
  constructor
  · rintro ⟨rest, hrest⟩
    rw [List.append_assoc, List.cons_append] at hrest
    obtain ⟨hnames, -⟩ := append_cons_inj (hspace v) (hspace w) hrest
    exact (Var.name_inj (String.toList_inj.1 hnames)).symm
  · rintro rfl
    exact (List.prefix_append_right_inj _).2 (List.cons_prefix_cons.2 ⟨rfl, List.prefix_append _ _⟩)

theorem nodup_declared (scope : Scope) : scope.declared.Nodup := by
  have hcells : (scope.cells.toList.map Var.cell).Nodup :=
    scope.cells.nodup_toList.map fun p q h => Var.cell.inj h
  refine List.nodup_append.2 ⟨hcells, List.nodup_singleton _, ?_⟩
  simp

/-- One line declares a variable of a scope. -/
theorem length_filter_declares {scope : Scope} {v : Var} (hv : v ∈ scope.declared) :
    ((declarationLines scope).filter (Var.declares v.name.toList)).length = 1 := by
  have hcount : scope.declared.countP (fun w => w == v) = 1 :=
    List.count_eq_one_of_mem (nodup_declared scope) hv
  rw [← List.countP_eq_length_filter, declarationLines, List.countP_map, ← hcount]
  refine List.countP_congr fun w _ => ?_
  rw [Function.comp_apply, declares_iff, beq_iff_eq]

/-! ## Compiled systems -/

theorem BuiltFrom.mapM_guard {b : Board} {limit : Nat} {keep : Option Pos} {goal : Goal}
    (h : s.BuiltFrom b limit keep goal) (hb : b.Fits) :
    s.rules.mapM (·.guard s.scope) = .ok (s.rules.map fun r =>
      .app .and (stepsBelow r.limit :: r.requires.map fun e => cellIs e.1 e.2)) := by
  refine Result.mapM_eq_map fun r hr => Rule.guard_eq fun p hp => ?_
  exact ((h.partitions hb hr).covers p).2 (.inl hp)

/-- The lines of the model of a compiled system are those of the five sections, a declaration for
each cell and one for the counter, and a case for each rule and one more; every variable in it is
declared once. -/
theorem laidOut_of_compiledFrom {b : Board} {limit : Nat} (hb : b.Drawn)
    (h : s.CompiledFrom b limit) : ∃ text, s.render = .ok text ∧ s.LaidOut text := by
  obtain ⟨keep, goal, hbuilt, hgoal⟩ := h.exists_builtFrom hb.fits
  obtain ⟨arms, hshaped, hheads, hcases⟩ := exists_arms (s.exists_isArm_of_mem_cases)
  have hspeaks := hbuilt.speaks_scriptLines hb.fits hgoal
  refine ⟨s.wording, hbuilt.render_eq hb.fits hgoal, ?_⟩
  have hlines : lines s.wording.toList = s.linesWith arms := by
    rw [wording_eq_unlines, lines_unlines fun line hline => (hspeaks line hline).oneLine,
      map_scriptLines hcases]
  have hlength : arms.length = s.rules.length + 1 := by
    have hcount := congrArg List.length hheads
    simpa [cases] using hcount
  constructor
  case sections => rw [hlines, filter_sections hshaped]
  case cells => rw [hlines, filter_cells hshaped]
  case rowMajor => exact s.scope.cells.sorted
  case names =>
    exact s.scope.cells.nodup_toList.map fun p q h => Var.cell.inj (Var.name_inj h)
  case heads =>
    refine ⟨_, hbuilt.mapM_guard hb.fits, ?_⟩
    rw [hlines, filter_isHead hshaped, hheads, cases, List.map_append, List.map_append,
      List.map_map, List.map_map, List.map_map]
    congr 1
    refine List.map_congr_left fun r _ => ?_
    rw [Function.comp_apply, Function.comp_apply, Function.comp_apply, Rule.text_guard]
    rfl
  case length_heads => rw [hlines, filter_isHead hshaped, List.length_map, hlength]
  case length_closings => rw [hlines, filter_isClosing hshaped, List.length_map, hlength]
  case arms =>
    rw [hlines]
    exact ⟨arms, linesBetween_case_esac hshaped, filter_isHead hshaped, filter_isClosing hshaped⟩
  case declared =>
    intro w hw hlikely
    rw [wording_eq_unlines, mem_identifiers_unlines] at hw
    obtain ⟨line, hline, hw⟩ := hw
    obtain ⟨v, hv, rfl⟩ := (hspeaks line hline).identifiers w hw hlikely
    rw [hlines, linesBetween_var_init]
    exact length_filter_declares hv

/-- A pair on two rows, with a bound of steps whose line ends much like that of a cell. -/
theorem laidOut_of_corner :
    ∃ (b : Board) (s : System) (text : String), b.Drawn ∧
      compilePair b ⟨⟨0, 1⟩, ⟨1, 0⟩⟩ 13 = .ok s ∧ s.render = .ok text ∧ s.LaidOut text := by
  have hb : Board.Drawn ⟨[[.keeper, .box, .floor], [.goal, .wall, .box]], 3, by decide⟩ :=
    ⟨"@$_\n.#$", by decide, rfl⟩
  have hcompiles : ∃ s, compilePair _ ⟨⟨0, 1⟩, ⟨1, 0⟩⟩ 13 = .ok s :=
    exists_compilePair hb.fits (by decide) (by decide) 13
  obtain ⟨s, hs⟩ := hcompiles
  obtain ⟨text, htext, hlaid⟩ := laidOut_of_compiledFrom hb (.pair _ hs)
  exact ⟨_, s, text, hb, hs, htext, hlaid⟩

end System

end Sokoban
