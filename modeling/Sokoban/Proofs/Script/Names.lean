import Sokoban.Proofs.Script.Lines
import Sokoban.Proofs.Text.Identifiers

/-!
# The identifiers of a model

Each line of a model is put together from pieces that name no variables but those of the scope, so
the same holds of the whole model.
-/

namespace Sokoban

open Text Formula

/-! ## Identifiers of a model -/

/-- Whether an identifier looks like a variable. -/
def Var.isLikely (w : List Char) : Bool := beginsWith "pos_" w || w == Var.steps.name.toList

namespace Scope

variable {scope : Scope} {v : Var} {p : Pos}

def Knows (scope : Scope) (w : List Char) : Prop :=
  Var.isLikely w = true → ∃ v ∈ scope.declared, w = v.name.toList

theorem cell_mem_declared (h : p ∈ scope.cells) : .cell p ∈ scope.declared :=
  List.mem_append_left _ (List.mem_map_of_mem h)

theorem steps_mem_declared (scope : Scope) : .steps ∈ scope.declared :=
  List.mem_append_right _ List.mem_cons_self

theorem knows_name (h : v ∈ scope.declared) : scope.Knows v.name.toList := fun _ => ⟨v, h, rfl⟩

theorem knows_toString (n : Nat) : scope.Knows (toString n).toList := by
  -- a variable begins with a letter
  intro hlikely
  have hletter : 'p' ∈ (toString n).toList ∨ 's' ∈ (toString n).toList := by
    rcases Bool.or_eq_true_iff.1 hlikely with h | h
    · exact .inl ((List.isPrefixOf_iff_prefix.1 h).subset (by decide))
    · exact .inr ((beq_iff_eq.1 h) ▸ by decide)
  rcases hletter with h | h <;> cases isDigit_of_mem_toString h

/-! ## Pieces of a model -/

theorem piece_name {s : String} (hv : v ∈ scope.declared) (hne : s.toList ≠ [])
    (hs : s.toList.all isSeparator = true) : Piece scope.Knows (v.name ++ s) :=
  .name v.isName_name (knows_name hv) hne hs

theorem piece_number {s : String} (n : Nat) (hne : s.toList ≠ [])
    (hs : s.toList.all isSeparator = true) : Piece scope.Knows (toString n ++ s) :=
  .name (isName_toString n) (knows_toString n) hne hs

theorem piece_after (hv : v ∈ scope.declared) : Piece scope.Knows (StepVar.after v).name := by
  have hname : (StepVar.after v).name = "next" ++ "(" ++ (v.name ++ ")") := by
    apply String.toList_inj.1
    simp [StepVar.name, StepVar.after]
  have hnext : Piece scope.Knows ("next" ++ "(") :=
    .name (isName_of_all rfl) (fun h => absurd h (by decide)) (by decide) rfl
  rw [hname]
  exact hnext.append (piece_name hv (by decide) rfl)

theorem piece_equationText (hp : p ∈ scope.cells) (c : Content) :
    Piece scope.Knows (equationText (p, c)) := by
  have htext : equationText (p, c) =
      "(" ++ ((Var.cell p).name ++ " = ") ++ (toString c.code ++ ")") := by
    apply String.toList_inj.1
    simp [equationText, parenthesized, Content.text]
  have hopen : Piece scope.Knows "(" := .separators rfl
  rw [htext]
  exact (hopen.append (piece_name (cell_mem_declared hp) (by decide) rfl)).append
    (piece_number c.code (by decide) rfl)

theorem piece_counter {sign : String} (hne : sign.toList ≠ [])
    (hsign : sign.toList.all isSeparator = true) (n : Nat) :
    Piece scope.Knows (parenthesized (Var.steps.name ++ sign ++ toString n)) := by
  have htext : parenthesized (Var.steps.name ++ sign ++ toString n) =
      "(" ++ (Var.steps.name ++ sign) ++ (toString n ++ ")") := by
    apply String.toList_inj.1
    simp [parenthesized]
  have hopen : Piece scope.Knows "(" := .separators rfl
  rw [htext]
  exact (hopen.append (piece_name scope.steps_mem_declared hne hsign)).append
    (piece_number n (by decide) rfl)

theorem piece_wording {s : State} (h : ∀ e ∈ s.cells.entries, e.1 ∈ scope.cells) :
    Piece scope.Knows s.wording := by
  refine .append (.join (List.forall_mem_map.2 fun e he => ?_)) ?_
  · exact (piece_equationText (h e he) e.2).append (.separators rfl)
  · exact piece_counter (by decide) rfl s.steps

theorem piece_condition {requires : List (Pos × Content)}
    (h : ∀ e ∈ requires, e.1 ∈ scope.cells) (limit : Nat) :
    Piece scope.Knows (Rule.condition limit requires) := by
  refine .append (piece_counter (by decide) rfl limit)
    (.join (List.forall_mem_map.2 fun e he => ?_))
  exact .append (.separators rfl) (piece_equationText (h e he) e.2)

/-- What is said of boxes is a piece together with the parentheses that close it. -/
theorem piece_boxesText {cells : List Pos} (h : ∀ p ∈ cells, p ∈ scope.cells) :
    Piece scope.Knows (boxesText cells ++ "));") := by
  match cells with
  | [] =>
      have htrue : IsName "TRUE" := isName_of_all rfl
      exact .name htrue (fun h => absurd h (by decide)) (by decide) rfl
  | [p] =>
      have hp : p ∈ scope.cells := h p List.mem_cons_self
      rw [boxesText, String.append_assoc]
      exact .append (piece_name (cell_mem_declared hp) (by decide) rfl)
        (piece_number Content.box.code (by decide) rfl)
  | p :: q :: rest =>
      obtain ⟨hp, hrest⟩ := List.forall_mem_cons.1 h
      refine .append (.append (piece_equationText hp _) (.join ?_)) (.separators rfl)
      exact List.forall_mem_map.2 fun r hr =>
        .append (.separators rfl) (piece_equationText (hrest r hr) _)

end Scope

/-! ## The conjuncts of a change -/

namespace Formula

variable {scope : Scope} {v : Var} {p : Pos}

theorem lineText_of_isApp {V : Type} [Variable V] {f : Formula V} (h : f.isApp = true) :
    f.lineText = "(" ++ f.text ++ ")" := if_pos h

theorem piece_becomes (hp : p ∈ scope.cells) (c : Content) :
    Piece scope.Knows (becomes p c).lineText := by
  have htext : (becomes p c).lineText =
      "(" ++ (StepVar.after (.cell p)).name ++ " = " ++ (toString c.code ++ ")") := by
    rw [lineText_of_isApp rfl, becomes, text_equation]
    simp only [String.append_assoc]
    rfl
  have hopen : Piece scope.Knows "(" := .separators rfl
  rw [htext]
  exact ((hopen.append (Scope.piece_after (Scope.cell_mem_declared hp))).append
    (.separators rfl)).append (Scope.piece_number c.code (by decide) rfl)

theorem piece_stays (hv : v ∈ scope.declared) : Piece scope.Knows (stays v).lineText := by
  have htext : (stays v).lineText =
      "(" ++ (StepVar.after v).name ++ " = " ++ (v.name ++ ")") := by
    rw [lineText_of_isApp rfl]
    apply String.toList_inj.1
    simp [stays, text, argumentTexts, layout, Op.symbol, Variable.name, StepVar.name,
      StepVar.current]
  have hopen : Piece scope.Knows "(" := .separators rfl
  rw [htext]
  exact ((hopen.append (Scope.piece_after hv)).append (.separators rfl)).append
    (Scope.piece_name hv (by decide) rfl)

theorem piece_counts : Piece scope.Knows counts.lineText := by
  have htext : counts.lineText =
      "(" ++ (StepVar.after .steps).name ++ " = " ++ (Var.steps.name ++ " + ") ++
        (toString 1 ++ ")") := by
    rw [lineText_of_isApp rfl]
    apply String.toList_inj.1
    simp [counts, text, argumentTexts, layout, Op.symbol, Op.parenthesizes, Op.isLeading,
      Op.precedence, Variable.name, StepVar.name, StepVar.current, Const.text]
  have hopen : Piece scope.Knows "(" := .separators rfl
  have hafter := Scope.piece_after scope.steps_mem_declared
  rw [htext]
  exact (((hopen.append hafter).append (.separators rfl)).append
    (Scope.piece_name scope.steps_mem_declared (by decide) rfl)).append
    (Scope.piece_number 1 (by decide) rfl)

end Formula

/-! ## The lines of a model -/

theorem Formula.speaks_stackedFrom {D : List Char → Prop} {line : String} {texts : List String}
    (hline : Piece D line) (h : ∀ t ∈ texts, Piece D t) :
    ∀ line' ∈ stackedFrom line texts, Speaks D line'.toList := by
  induction texts generalizing line with
  | nil => exact List.forall_mem_singleton.2 (hline.append (.separators rfl)).speaks
  | cons t rest ih =>
      obtain ⟨ht, hrest⟩ := List.forall_mem_cons.1 h
      have hmargin : Piece D (System.margin ++ "& ") := .separators rfl
      exact List.forall_mem_cons.2 ⟨hline.speaks, ih (hmargin.append ht) hrest⟩

theorem Formula.speaks_stackedLines {D : List Char → Prop} {f : StepFormula}
    (h : ∀ g ∈ f.conjuncts, Piece D g.lineText) :
    ∀ line ∈ f.stackedLines, Speaks D line.toList := by
  have hmargin : Piece D System.margin := .separators rfl
  have htexts : ∀ t ∈ f.conjuncts.map lineText, Piece D t := List.forall_mem_map.2 h
  unfold stackedLines
  cases hconjuncts : f.conjuncts.map lineText with
  | nil => exact List.forall_mem_singleton.2 (hmargin.append (.separators rfl)).speaks
  | cons t rest =>
      rw [hconjuncts] at htexts
      obtain ⟨ht, hrest⟩ := List.forall_mem_cons.1 htexts
      exact speaks_stackedFrom (hmargin.append ht) hrest

namespace System

variable {scope : Scope} {v : Var}

theorem speaks_declarationLine (hv : v ∈ scope.declared) :
    Speaks scope.Knows (declarationLine scope v).toList := by
  have htab : Piece scope.Knows tab := .separators rfl
  have htext : declarationLine scope v = tab ++ (v.name ++ " : ") ++
      (toString (scope.range v).1 ++ "..") ++ (toString (scope.range v).2 ++ ";") := by
    simp only [declarationLine, String.append_assoc]
  rw [htext]
  exact (((htab.append (Scope.piece_name hv (by decide) rfl)).append
    (Scope.piece_number _ (by decide) rfl)).append (Scope.piece_number _ (by decide) rfl)).speaks

/-- A line that names nothing that looks like a variable. -/
theorem speaks_of_unlikely {line : String} (hline : '\n' ∉ line.toList ∧ '\r' ∉ line.toList)
    (h : ∀ w ∈ identifiers line.toList, Var.isLikely w = false) :
    Speaks scope.Knows line.toList :=
  ⟨hline.1, hline.2, fun w hw hlikely => absurd hlikely (by simp [h w hw])⟩

end System

theorem Rule.piece_change {scope : Scope} {r : Rule} (h : r.Partitions scope) :
    ∀ g ∈ r.change.conjuncts, Piece scope.Knows g.lineText := by
  have heffect : ∀ e ∈ r.effect, e.1 ∈ scope.cells := fun e he =>
    (h.covers e.1).2 (.inl (PosSet.mem_ofList.2 (List.mem_map_of_mem he)))
  have hframe : ∀ p ∈ r.frame, p ∈ scope.cells := fun p hp => (h.covers p).2 (.inr hp)
  refine List.forall_mem_append.2 ⟨List.forall_mem_map.2 fun e he => ?_,
    List.forall_mem_cons.2 ⟨piece_counts, List.forall_mem_map.2 fun p hp => ?_⟩⟩
  · exact piece_becomes (heffect e he) e.2
  · exact piece_stays (Scope.cell_mem_declared (hframe p hp))

namespace System

variable {s : System} {b : Board} {limit : Nat} {keep : Option Pos} {goal : Goal}

theorem BuiltFrom.speaks_cases (h : s.BuiltFrom b limit keep goal) (hb : b.Fits) :
    ∀ c ∈ s.cases, ∀ line ∈ caseLines c.1 c.2, Speaks s.scope.Knows line.toList := by
  have htab : Piece s.scope.Knows (tab ++ tab) := .separators rfl
  have hcolon : Piece s.scope.Knows " :" := .separators rfl
  have htrue : Speaks s.scope.Knows (headLine "TRUE").toList :=
    speaks_of_unlikely (by decide) (by decide)
  refine List.forall_mem_append.2 ⟨List.forall_mem_map.2 fun r hr => ?_,
    List.forall_mem_singleton.2 ?_⟩
  · have hpart := h.partitions hb hr
    have hrequires : ∀ e ∈ r.requires, e.1 ∈ s.scope.cells := fun e he => by
      refine (hpart.covers e.1).2 (.inl (PosSet.mem_ofList.2 ?_))
      rw [← Rule.map_fst_requires]
      exact List.mem_map_of_mem he
    have hhead := (htab.append (Scope.piece_condition hrequires r.limit)).append hcolon
    exact List.forall_mem_cons.2 ⟨hhead.speaks, speaks_stackedLines (Rule.piece_change hpart)⟩
  · refine List.forall_mem_cons.2 ⟨htrue, ?_⟩
    exact speaks_stackedLines (List.forall_mem_map.2 fun v hv => piece_stays hv)

/-- The lines of a model name no variables but declared ones. -/
theorem BuiltFrom.speaks_scriptLines (h : s.BuiltFrom b limit keep goal) (hb : b.Fits)
    (hgoal : ∀ p ∈ goal.cells, p ∈ s.scope.cells) :
    ∀ line ∈ s.scriptLines, Speaks s.scope.Knows line.toList := by
  have htab : Piece s.scope.Knows tab := .separators rfl
  have hentries : ∀ e ∈ s.start.cells.entries, e.1 ∈ s.scope.cells := fun e he => by
    rw [← h.keys_start]
    exact State.mem_keys_iff.2 ⟨e.2, PosMap.mem_entries_iff.1 he⟩
  have hend : Piece s.scope.Knows ";" := .separators rfl
  have hstart := (htab.append (Scope.piece_wording hentries)).append hend
  have hnever : Piece s.scope.Knows (tab ++ "!(" ++ ("F" ++ " (")) :=
    (htab.append (.separators rfl)).append
      (.name (isName_of_all rfl) (fun h => absurd h (by decide)) (by decide) rfl)
  have hproperty := (hnever.append (Scope.piece_boxesText (h.goal ▸ hgoal))).speaks
  intro line hline
  simp only [scriptLines, List.mem_cons, List.mem_append, List.mem_map, List.mem_flatMap,
    List.not_mem_nil, or_false] at hline
  rcases hline with rfl | rfl | ⟨v, hv, rfl⟩ | rfl | rfl | rfl | rfl | ⟨c, hc, hline⟩ | rfl | rfl |
    rfl
  · exact speaks_of_unlikely (by decide) (by decide)
  · exact speaks_of_unlikely (by decide) (by decide)
  · exact speaks_declarationLine hv
  · exact speaks_of_unlikely (by decide) (by decide)
  · exact hstart.speaks
  · exact speaks_of_unlikely (by decide) (by decide)
  · exact speaks_of_unlikely (by decide) (by decide)
  · exact h.speaks_cases hb c hc line hline
  · exact speaks_of_unlikely (by decide) (by decide)
  · exact speaks_of_unlikely (by decide) (by decide)
  · simpa using hproperty

end System

end Sokoban
