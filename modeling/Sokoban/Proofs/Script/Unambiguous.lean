import Sokoban.Proofs.Board.Drawn
import Sokoban.Proofs.Formula.Atoms
import Sokoban.Proofs.Script.Lines

/-!
# A written model is that of one system only

The text of a model can be read back: each part of it shows where it ends, and what it was written
from. So two compiled systems with the same text have the same declarations, start, rules and goal
cells. The direction and the frame of a rule are not looked up in the text; they follow from the
cells that its guard names.
-/

namespace Sokoban

open Text Formula

/-! ## Equations -/

theorem delimited_equation : Delimited equationText := by
  have hcell : Delimited fun p : Pos => (Var.cell p).name ++ " = " := delimited_cell rfl rfl
  have hnumber : Delimited fun n : Nat => toString n ++ ")" := delimited_number rfl rfl
  have hcontent : Delimited fun c : Content => toString c.code ++ ")" :=
    hnumber.comp fun _ _ => Content.code_injective
  refine ((hcell.pair hcontent).prepend "(").congr fun e => ?_
  simp only [equationText, parenthesized, Content.text, String.append_assoc]

/-- Forms that are joined to something before them, and the text that ends them. -/
theorem delimited_joined {α : Type} {f : α → String} (hf : Delimited f) (stop : String)
    (hstop : ∀ r r', " & " ++ r ≠ stop ++ r') :
    Delimited fun xs : List α => String.join (xs.map fun x => " & " ++ f x) ++ stop := by
  refine (hf.prepend " & ").join stop fun x r r' => ?_
  rw [String.append_assoc]
  exact hstop _ r'

/-! ## The parts of a model -/

theorem System.declaration_cell (scope : Scope) (p : Pos) :
    declaration scope (.cell p) = "    " ++ ((Var.cell p).name ++ " : 1..3;\n") := by
  rw [declaration_eq, declarationLine_cell]
  apply String.toList_inj.1
  simp [tab]

theorem System.declaration_steps (scope : Scope) :
    declaration scope .steps = "    steps_counter : 0.." ++ (toString scope.limit ++ ";\n") := by
  rw [declaration_eq, declarationLine_steps]
  apply String.toList_inj.1
  simp [tab]

theorem delimited_listing : Delimited System.listing := by
  have hcell : Delimited fun p : Pos => "    " ++ ((Var.cell p).name ++ " : 1..3;\n") :=
    (delimited_cell rfl rfl).prepend "    "
  have hlimit : Delimited fun n : Nat => toString n ++ ";\n" := delimited_number rfl rfl
  have hcells := hcell.join "    steps_counter : 0.." <| by
    -- the name of a cell begins otherwise than that of the counter
    intro p r r' h
    have hchars := congrArg String.toList h
    simp [Var.name] at hchars
  have hscope : ∀ s t : Scope, (s.cells.toList, s.limit) = (t.cells.toList, t.limit) → s = t := by
    intro s t h
    obtain ⟨hcells, hlimit⟩ := Prod.mk.inj h
    cases s
    cases t
    rw [Scope.mk.injEq]
    exact ⟨PosSet.toList_inj.1 hcells, hlimit⟩
  refine ((hcells.pair hlimit).comp hscope).congr fun s => ?_
  rw [System.listing, Scope.declared, List.map_append, List.map_map, List.map_singleton,
    String.join_append, System.declaration_steps]
  simp only [Function.comp_def, System.declaration_cell, String.append_assoc]
  simp

theorem delimited_start : Delimited State.wording := by
  have hcells := (delimited_equation.append " & ").join "(steps_counter = " <| by
    intro e r r' h
    have hchars := congrArg String.toList h
    simp [equationText, parenthesized, Var.name] at hchars
  have hsteps : Delimited fun n : Nat => toString n ++ ")" := delimited_number rfl rfl
  have hstate : ∀ s t : State, (s.cells.entries, s.steps) = (t.cells.entries, t.steps) → s = t := by
    intro s t h
    obtain ⟨hentries, hsteps⟩ := Prod.mk.inj h
    refine State.ext_get? (fun p => ?_) hsteps
    rw [State.get?, PosMap.get?, hentries]
    rfl
  refine ((hcells.pair hsteps).comp hstate).congr fun s => ?_
  simp only [State.wording, parenthesized, Var.name, String.append_assoc]
  apply String.toList_inj.1
  simp

theorem delimited_condition :
    Delimited fun e : Nat × List (Pos × Content) => Rule.condition e.1 e.2 ++ " :\n" := by
  have hlimit : Delimited fun n : Nat => toString n ++ ")" := delimited_number rfl rfl
  have hcells := delimited_joined delimited_equation " :\n" <| by
    intro r r' h
    have hchars := congrArg String.toList h
    simp at hchars
  refine ((hlimit.pair hcells).prepend "(steps_counter < ").congr fun e => ?_
  apply String.toList_inj.1
  simp [Rule.condition, parenthesized, Var.name]

/-! ## Rules -/

/-- A rule whose frame is what a scope leaves to it, whose direction leads from the keeper to the
target, and whose kind says whether there is a cell beyond. -/
structure Rule.Directed (scope : Scope) (r : Rule) : Prop where
  kind_eq_move_iff : r.kind = .move ↔ r.beyond = none
  ahead : r.keeper.Ahead r.direction 1 r.target
  within : r = Rule.within scope r.kind r.keeper r.direction r.target r.beyond

theorem Rule.Legal.directed {b : Board} {scope : Scope} {r : Rule} (h : r.Legal b scope) :
    r.Directed scope :=
  ⟨h.kind_eq_move_iff, h.ahead_target, h.within⟩

/-- Among such rules the guard tells which one it is. -/
theorem Rule.Directed.eq_of_requires {scope : Scope} {r q : Rule} (hr : r.Directed scope)
    (hq : q.Directed scope) (h : r.requires = q.requires) : r = q := by
  have hcells : r.keeper = q.keeper ∧ r.target = q.target ∧ r.beyond = q.beyond := by
    unfold requires at h
    cases hrb : r.beyond with
    | none =>
        cases hqb : q.beyond with
        | none => simpa [hrb, hqb] using h
        | some c => simp [hrb, hqb] at h
    | some c =>
        cases hqb : q.beyond with
        | none => simp [hrb, hqb] at h
        | some d => simpa [hrb, hqb] using h
  obtain ⟨hkeeper, htarget, hbeyond⟩ := hcells
  have hahead := hq.ahead
  rw [← hkeeper, ← htarget] at hahead
  have hdirection : r.direction = q.direction := hr.ahead.direction_eq hahead
  have hkind : r.kind = q.kind := RuleKind.eq_of_move_iff <| by
    rw [hr.kind_eq_move_iff, hq.kind_eq_move_iff, hbeyond]
  rw [hr.within, hq.within, hkind, hkeeper, hdirection, htarget, hbeyond]

namespace System

theorem headLine_append (condition : String) :
    headLine condition ++ "\n" = "        " ++ (condition ++ " :\n") := by
  apply String.toList_inj.1
  simp [headLine, tab]

theorem caseText_eq (condition : String) (change : StepFormula) :
    caseText condition change = headLine condition ++ "\n" ++ unlines change.stackedLines := by
  rw [← unlines_caseLines, caseLines, unlines_cons]

end System

theorem Rule.wording_append (r : Rule) (s : String) :
    r.wording ++ s = "        " ++ (condition r.limit r.requires ++ " :\n") ++
      (unlines r.change.stackedLines ++ s) := by
  rw [wording, System.caseText_eq, System.headLine_append, String.append_assoc]

theorem delimited_case (scope : Scope) :
    Delimited fun r : { r : Rule // r.Directed scope } => r.1.wording := by
  intro r q s s' h
  dsimp only at h
  rw [Rule.wording_append, Rule.wording_append] at h
  obtain ⟨hkey, hrest⟩ := delimited_condition.prepend "        "
    (x := (r.1.limit, r.1.requires)) (y := (q.1.limit, q.1.requires)) h
  obtain ⟨-, hrequires⟩ := Prod.mk.inj hkey
  obtain rfl : r = q := Subtype.ext (r.2.eq_of_requires q.2 hrequires)
  exact ⟨rfl, (String.append_right_inj _).1 hrest⟩

theorem delimited_cases (scope : Scope) :
    Delimited fun rs : List { r : Rule // r.Directed scope } =>
      String.join (rs.map fun r => r.1.wording) ++ (System.headLine "TRUE" ++ "\n") := by
  -- the condition of a rule begins with a parenthesis, that of the last case does not
  refine (delimited_case scope).join _ fun r s s' h => ?_
  have hchars := congrArg String.toList h
  simp [Rule.wording_append, System.headLine_append, Rule.condition, parenthesized] at hchars

/-! ## Goals -/

/-- The first character of the condition of winning, which tells apart no cell, one and several. -/
def boxesSign : List Pos → Char
  | [] => 'T'
  | [_] => 'p'
  | _ :: _ :: _ => '('

theorem head?_boxesText (cells : List Pos) (r : String) :
    (boxesText cells ++ r).toList.head? = some (boxesSign cells) := by
  match cells with
  | [] => simp [boxesText, boxesSign]
  | [p] => simp [boxesText, boxesSign, Var.name]
  | p :: q :: rest => simp [boxesText, boxesSign, equationText, parenthesized]

theorem delimited_boxes : Delimited fun cells : List Pos => boxesText cells ++ "))" := by
  have hone : Delimited fun p : Pos => (Var.cell p).name ++ " = " ++ Content.box.text ++ "))" :=
    ((delimited_cell rfl rfl).append _).append _
  have hcell : Delimited fun p : Pos => equationText (p, .box) :=
    delimited_equation.comp fun _ _ h => congrArg Prod.fst h
  have hrest := delimited_joined hcell "))" <| by
    intro r r' h
    have hchars := congrArg String.toList h
    simp at hchars
  intro xs ys r r' h
  dsimp only at h
  have hsign : boxesSign xs = boxesSign ys := by
    have hhead := congrArg (fun s => s.toList.head?) h
    rw [String.append_assoc, String.append_assoc, head?_boxesText, head?_boxesText] at hhead
    exact Option.some.inj hhead
  match xs, ys with
  | [], [] => exact ⟨rfl, (String.append_right_inj _).1 h⟩
  | [p], [q] =>
      obtain ⟨hpq, hr⟩ := hone h
      exact ⟨by rw [hpq], hr⟩
  | p :: p' :: rest, q :: q' :: rest' =>
      obtain ⟨hcells, hr⟩ := (hcell.pair hrest) (x := (p, p' :: rest)) (y := (q, q' :: rest')) <| by
        simpa only [boxesText, String.append_assoc] using h
      obtain ⟨hpq, hrest⟩ := Prod.mk.inj hcells
      exact ⟨by rw [hpq, hrest], hr⟩
  | [], [_] | [], _ :: _ :: _ | [_], [] | [_], _ :: _ :: _ | _ :: _ :: _, [] | _ :: _ :: _, [_] =>
      simp [boxesSign] at hsign

namespace System

/-- Two systems with the same declarations, the same start, the same rules in the same order, and
the same goal cells. -/
structure SameModel (s t : System) : Prop where
  scope : s.scope = t.scope
  start : s.start = t.start
  rules : s.rules = t.rules
  goal : s.goal.cells = t.goal.cells

variable {s t : System} {b c : Board} {limit limit' : Nat} {keep keep' : Option Pos}
  {goal goal' : Goal}

theorem SameModel.wording_eq (h : s.SameModel t) : s.wording = t.wording := by
  delta wording
  rw [h.scope, h.start, h.rules, h.goal]

theorem BuiltFrom.exists_directed (h : s.BuiltFrom b limit keep goal) (hb : b.Fits) :
    ∃ rs : List { r : Rule // r.Directed s.scope }, s.rules = rs.map fun r => r.1 := by
  have hdirected : ∀ r ∈ s.rules, r.Directed s.scope :=
    fun r hr => h.scope ▸ (h.legal hb hr).directed
  exact ⟨s.rules.attachWith _ hdirected, (List.attachWith_map_subtype_val _).symm⟩

/-- From the cases on, a model whose rules follow from their guards. -/
def tail (scope : Scope) (rs : List { r : Rule // r.Directed scope }) (goal : List Pos) : String :=
  (String.join (rs.map fun r => r.1.wording) ++ (headLine "TRUE" ++ "\n")) ++
    (unlines (stackedLines (.app .and (scope.declared.map stays))) ++
      "    esac;\nLTLSPEC\n    !(F (" ++
      ((boxesText goal ++ "))") ++ ";\n"))

theorem tail_inj {scope : Scope} {rs qs : List { r : Rule // r.Directed scope }} {xs ys : List Pos}
    (h : tail scope rs xs = tail scope qs ys) : rs = qs ∧ xs = ys := by
  obtain ⟨hrules, h⟩ := delimited_cases scope h
  obtain ⟨hgoal, -⟩ := delimited_boxes ((String.append_right_inj _).1 h)
  exact ⟨hrules, hgoal⟩

theorem wording_eq_tail {rs : List { r : Rule // r.Directed s.scope }}
    (hrs : s.rules = rs.map fun r => r.1) :
    s.wording = "MODULE main\nVAR\n" ++ (listing s.scope ++ ("INIT\n    " ++ (s.start.wording ++
      (";\nTRANS\n    case\n" ++ tail s.scope rs s.goal.cells)))) := by
  have hlast : lastCase s.scope =
      headLine "TRUE" ++ "\n" ++ unlines (stackedLines (.app .and (s.scope.declared.map stays))) :=
    caseText_eq _ _
  have hend : boxesText s.goal.cells ++ "));\n" = (boxesText s.goal.cells ++ "))") ++ ";\n" := by
    rw [String.append_assoc]
    rfl
  delta wording
  rw [hrs, hlast, hend, tail, List.map_map]
  simp only [Function.comp_def, String.append_assoc]

theorem BuiltFrom.sameModel_of_wording (hs : s.BuiltFrom b limit keep goal)
    (ht : t.BuiltFrom c limit' keep' goal') (hb : b.Fits) (hc : c.Fits)
    (h : s.wording = t.wording) : s.SameModel t := by
  obtain ⟨rs, hrs⟩ := hs.exists_directed hb
  obtain ⟨qs, hqs⟩ := ht.exists_directed hc
  rw [wording_eq_tail hrs, wording_eq_tail hqs] at h
  -- the parts are read back one after the other
  obtain ⟨hscope, h⟩ := delimited_listing ((String.append_right_inj _).1 h)
  obtain ⟨hstart, h⟩ := delimited_start ((String.append_right_inj _).1 h)
  have htail := (String.append_right_inj _).1 h
  clear h
  obtain ⟨scope, start, rules, goal⟩ := s
  obtain ⟨scope', start', rules', goal'⟩ := t
  dsimp only at hscope hstart htail hrs hqs
  subst hscope
  obtain ⟨rfl, hgoal⟩ := tail_inj htail
  exact ⟨rfl, hstart, hrs.trans hqs.symm, hgoal⟩

/-- Compiled systems are always written, and what is written determines the model. -/
theorem render_eq_iff_sameModel (hb : b.Drawn) (hc : c.Drawn) (hs : s.CompiledFrom b limit)
    (ht : t.CompiledFrom c limit') :
    ∃ u v, s.render = .ok u ∧ t.render = .ok v ∧ (u = v ↔ s.SameModel t) := by
  obtain ⟨keep, goal, hsbuilt, hsgoal⟩ := hs.exists_builtFrom hb.fits
  obtain ⟨keep', goal', htbuilt, htgoal⟩ := ht.exists_builtFrom hc.fits
  refine ⟨s.wording, t.wording, hsbuilt.render_eq hb.fits hsgoal,
    htbuilt.render_eq hc.fits htgoal, ?_, SameModel.wording_eq⟩
  exact hsbuilt.sameModel_of_wording htbuilt hb.fits hc.fits

/-- With one box and one goal cell, the pair of them has the model of the whole board. -/
theorem render_eq_iff_sameModel_of_corridor :
    ∃ (b : Board) (s t : System), b.Drawn ∧ compile b 3 = .ok s ∧
      compilePair b ⟨⟨0, 1⟩, ⟨0, 2⟩⟩ 3 = .ok t ∧ s.goal ≠ t.goal ∧ s.SameModel t ∧
      ∃ text, s.render = .ok text ∧ t.render = .ok text := by
  have hb : Board.Drawn ⟨[[.keeper, .box, .goal]], 3, by decide⟩ := ⟨"@$.", by decide, rfl⟩
  obtain ⟨s, t, hs, ht, hgoal, hscope, hstart, hrules, hcells⟩ :
      ∃ s t, compile ⟨[[.keeper, .box, .goal]], 3, by decide⟩ 3 = .ok s ∧
        compilePair ⟨[[.keeper, .box, .goal]], 3, by decide⟩ ⟨⟨0, 1⟩, ⟨0, 2⟩⟩ 3 = .ok t ∧
        s.goal ≠ t.goal ∧ s.scope = t.scope ∧ s.start = t.start ∧ s.rules = t.rules ∧
        s.goal.cells = t.goal.cells :=
    ⟨_, _, rfl, rfl, by decide, by rfl, by rfl, by rfl, by rfl⟩
  have hsame : s.SameModel t := ⟨hscope, hstart, hrules, hcells⟩
  obtain ⟨u, v, hu, hv, huv⟩ := render_eq_iff_sameModel hb hb (.whole hs) (.pair _ ht)
  obtain rfl := huv.2 hsame
  exact ⟨_, s, t, hb, hs, ht, hgoal, hsame, u, hu, hv⟩

end System

end Sokoban
