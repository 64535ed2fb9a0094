import Mathlib.Data.List.SplitBy
import Sokoban.Proofs.Formula.Stacked
import Sokoban.Proofs.Script.Layout

/-!
# Reading the cases of a model back

A conjunction is written in two ways: on one line, and in the cases of a model with a line for each
conjunct. Both ways show the same. The lines of a case, put together to one without their margins,
are its condition and its change as each of them is written by itself.
-/

namespace Sokoban

open Text Formula

namespace Text

/-- Lines put together to one: their margins are left out, and a space stands for each line feed. -/
def onOneLine (ls : List (List Char)) : List Char :=
  [' '].intercalate (ls.map fun line => line.dropWhile (· == ' '))

theorem onOneLine_cons {ls : List (List Char)} (hne : ls ≠ []) (line : List Char) :
    onOneLine (line :: ls) = line.dropWhile (· == ' ') ++ ' ' :: onOneLine ls := by
  cases ls with
  | nil => exact absurd rfl hne
  | cons line' rest =>
      rw [onOneLine, List.map_cons, List.map_cons, List.intercalate_cons_cons, List.append_assoc]
      rfl

theorem dropWhile_margin {margin text : String} {c : Char}
    (hmargin : margin.toList.all (· == ' ') = true) (htext : text.toList.head? = some c)
    (hc : c ≠ ' ') :
    (margin ++ text).toList.dropWhile (· == ' ') = text.toList := by
  obtain ⟨rest, hrest⟩ := List.head?_eq_some_iff.1 htext
  rw [String.toList_append, List.dropWhile_append_of_pos (List.all_eq_true.1 hmargin), hrest,
    List.dropWhile_cons_of_neg (by simpa using hc)]

/-- Blocks that begin with an element of a kind, and have no other of it, are found by splitting
before each element of that kind. -/
theorem splitBy_flatten_of_heads {α : Type} {p : α → Bool} {blocks : List (List α)}
    (h : ∀ b ∈ blocks, ∃ x rest, b = x :: rest ∧ p x = true ∧ ∀ y ∈ rest, p y = false) :
    blocks.flatten.splitBy (fun _ y => !p y) = blocks := by
  refine List.splitBy_flatten ?_ ?_ ?_
  · intro hnil
    obtain ⟨x, rest, hb, -⟩ := h [] hnil
    cases hb
  · intro b hb
    obtain ⟨x, rest, rfl, -, hrest⟩ := h b hb
    have hlater : ∀ y ∈ rest, (!p y) = true := fun y hy => by rw [hrest y hy]; rfl
    refine (List.pairwise_cons.2 ⟨hlater, ?_⟩).isChain
    exact List.pairwise_of_forall_mem_list fun _ _ y hy => hlater y hy
  · refine (List.pairwise_of_forall_mem_list fun b hb d hd => ?_).isChain
    obtain ⟨x, rest, rfl, -, -⟩ := h b hb
    obtain ⟨y, more, rfl, hy, -⟩ := h d hd
    exact ⟨List.cons_ne_nil x rest, List.cons_ne_nil y more, by rw [List.head_cons, hy]; rfl⟩

end Text

namespace Formula

theorem stackedFrom_ne_nil (line : String) (texts : List String) : stackedFrom line texts ≠ [] := by
  cases texts <;> simp [stackedFrom]

theorem onOneLine_stackedFrom {t : String} {c : Char} (ht : t.toList.head? = some c) (hc : c ≠ ' ')
    (texts : List String) :
    onOneLine ((stackedFrom (System.margin ++ t) texts).map String.toList) =
      (t ++ String.join (texts.map fun u => " & " ++ u) ++ ";").toList := by
  have hmargin : System.margin.toList.all (· == ' ') = true := rfl
  induction texts generalizing t c with
  | nil =>
      have hend : (t ++ ";").toList.head? = some c := by
        rw [String.toList_append, List.head?_append, ht]
        rfl
      have hline := dropWhile_margin hmargin hend hc
      rw [← String.append_assoc] at hline
      simpa [stackedFrom, onOneLine] using hline
  | cons u rest ih =>
      have hsign : ("& " ++ u).toList.head? = some '&' := by simp
      have hrest := ih hsign (by decide)
      rw [← String.append_assoc] at hrest
      rw [stackedFrom, List.map_cons, onOneLine_cons (by simp [stackedFrom_ne_nil]),
        dropWhile_margin hmargin ht hc, hrest]
      simp

theorem onOneLine_stackedLines {args : List StepFormula} (hne : args ≠ [])
    (h : ∀ g ∈ args, g.isApp = true) :
    onOneLine ((app .and args).stackedLines.map String.toList) =
      ((app .and args).text ++ ";").toList := by
  cases args with
  | nil => exact absurd rfl hne
  | cons f rest =>
      have hfirst : f.lineText.toList.head? = some '(' := by
        rw [lineText_of_isApp (h f List.mem_cons_self)]
        simp
      have htexts : (f :: rest).map (argumentText .and) = f.lineText :: rest.map lineText := by
        rw [List.map_cons, lineText_eq_argumentText]
        exact congrArg _ (List.map_congr_left fun g _ => (lineText_eq_argumentText g).symm)
      rw [text_and_eq_intercalate hne, htexts, intercalate_cons]
      exact onOneLine_stackedFrom hfirst (by decide) (rest.map lineText)

end Formula

namespace System

variable {s : System}

/-- The cases of a written model, each as its lines: one begins at the line of every condition. -/
def writtenCases (text : String) : List (List (List Char)) :=
  (linesBetween "    case" "    esac;" (lines text.toList)).splitBy fun _ line => !Arm.isHead line

/-- The cases of a written model, each put together to one line, are those of the rules in their
order and that of nothing changing: the condition, a colon, and the change as it is written on one
line. -/
def ReadsBack (s : System) (text : String) : Prop :=
  ∃ (guard : Rule → StateFormula) (update : Rule → StepFormula) (stutter : StepFormula),
    (∀ r ∈ s.rules, r.guard s.scope = .ok (guard r) ∧ r.update s.scope = .ok (update r)) ∧
      s.scope.stutter = .ok stutter ∧
      (writtenCases text).map onOneLine =
        (s.rules.map (fun r => (guard r).text ++ " : " ++ (update r).text ++ ";") ++
          ["TRUE : " ++ stutter.text ++ ";"]).map String.toList

theorem onOneLine_caseLines :
    ∀ c ∈ s.cases, onOneLine ((caseLines c.1 c.2).map String.toList) =
      (c.1 ++ " : " ++ c.2.text ++ ";").toList := by
  refine forall_mem_cases fun condition c args hcondition hc hne happ => ?_
  have htabs : (tab ++ tab).toList.all (· == ' ') = true := rfl
  have hhead : (condition ++ " :").toList.head? = some c := by
    rw [String.toList_append, List.head?_append, hcondition]
    rfl
  have hline := dropWhile_margin htabs hhead hc
  rw [← String.append_assoc] at hline
  have hchange : (app .and args).stackedLines.map String.toList ≠ [] := by
    cases args with
    | nil => exact absurd rfl hne
    | cons f rest => exact mt List.map_eq_nil_iff.1 (stackedFrom_ne_nil _ _)
  rw [caseLines, List.map_cons, onOneLine_cons hchange, headLine, hline,
    onOneLine_stackedLines hne happ]
  simp

theorem writtenCases_wording {b : Board} {limit : Nat} {keep : Option Pos} {goal : Goal}
    (h : s.BuiltFrom b limit keep goal) (hb : b.Fits)
    (hgoal : ∀ p ∈ goal.cells, p ∈ s.scope.cells) :
    writtenCases s.wording = s.cases.map fun c => (caseLines c.1 c.2).map String.toList := by
  obtain ⟨arms, hshaped, -, hcases⟩ := exists_arms (s.exists_isArm_of_mem_cases)
  have hlines : lines s.wording.toList = s.linesWith arms := by
    have hspeaks := h.speaks_scriptLines hb hgoal
    rw [wording_eq_unlines, lines_unlines fun line hline => (hspeaks line hline).oneLine,
      map_scriptLines hcases]
  have hflat : arms.flatMap Arm.lines =
      (s.cases.map fun c => (caseLines c.1 c.2).map String.toList).flatten := by
    rw [← hcases, List.map_flatMap, List.flatMap_def]
  rw [writtenCases, hlines, linesBetween_case_esac hshaped, hflat]
  refine splitBy_flatten_of_heads (List.forall_mem_map.2 fun c hc => ?_)
  obtain ⟨a, ha⟩ := s.exists_isArm_of_mem_cases c hc
  have hfilter := ha.shaped.filter_isHead
  have hhead : Arm.isHead a.head = true :=
    List.of_mem_filter (hfilter.symm ▸ List.mem_singleton_self a.head)
  rw [Arm.lines, List.filter_cons_of_pos hhead, List.cons_eq_cons] at hfilter
  refine ⟨a.head, a.inner ++ [a.closing], ha.lines, hhead, fun line hline => ?_⟩
  exact Bool.eq_false_iff.2 (List.filter_eq_nil_iff.1 hfilter.2 line hline)

theorem BuiltFrom.readsBack {b : Board} {limit : Nat} {keep : Option Pos} {goal : Goal}
    (h : s.BuiltFrom b limit keep goal) (hb : b.Fits)
    (hgoal : ∀ p ∈ goal.cells, p ∈ s.scope.cells) : s.ReadsBack s.wording := by
  refine ⟨fun r => .app .and (stepsBelow r.limit :: r.requires.map fun e => cellIs e.1 e.2),
    Rule.change, .app .and (s.scope.declared.map stays), fun r hr => ?_, s.scope.stutter_eq, ?_⟩
  · have hpart := h.partitions hb hr
    exact ⟨Rule.guard_eq fun p hp => (hpart.covers p).2 (.inl hp),
      Rule.update_eq (fun p hp => (hpart.covers p).2 (.inl hp))
        fun p hp => (hpart.covers p).2 (.inr hp)⟩
  · have hcases : (s.cases.map fun c => (caseLines c.1 c.2).map String.toList).map onOneLine =
        (s.cases.map fun c => c.1 ++ " : " ++ c.2.text ++ ";").map String.toList := by
      rw [List.map_map, List.map_map]
      exact List.map_congr_left onOneLine_caseLines
    rw [writtenCases_wording h hb hgoal, hcases, cases, List.map_append, List.map_map]
    simp only [Function.comp_def, Rule.text_guard]
    rfl

/-- The two ways in which conjunctions are written agree: on any conjunction with an argument, and
in each case of the model of a compiled system. -/
theorem conjunctions_written_alike :
    (∀ {V : Type} [Variable V] (args : List (Formula V)) (margin : String), args ≠ [] →
      WrittenAlike margin args) ∧
    ∀ {b : Board} {s : System} {limit : Nat}, b.Drawn → s.CompiledFrom b limit →
      ∃ text, s.render = .ok text ∧ s.ReadsBack text := by
  refine ⟨fun args margin hne => writtenAlike_of_ne_nil hne margin, ?_⟩
  intro b s limit hb h
  obtain ⟨keep, goal, hbuilt, hgoal⟩ := h.exists_builtFrom hb.fits
  exact ⟨s.wording, hbuilt.render_eq hb.fits hgoal, hbuilt.readsBack hb.fits hgoal⟩

/-- A conjunction with a conjunction of one argument in it and a misapplied operator, and a pair on
two rows. -/
theorem conjunctions_written_alike_of_corner :
    ([app .and [var Var.steps], const (.bool true), app .not []] ≠ [] ∧
      WrittenAlike "  " [app .and [var Var.steps], const (.bool true), app .not []]) ∧
    ∃ (b : Board) (s : System) (text : String), b.Drawn ∧
      compilePair b ⟨⟨0, 1⟩, ⟨1, 0⟩⟩ 13 = .ok s ∧ s.render = .ok text ∧ s.ReadsBack text := by
  have hne : [app .and [var Var.steps], const (.bool true), app .not []] ≠ [] :=
    List.cons_ne_nil _ _
  have hb : Board.Drawn ⟨[[.keeper, .box, .floor], [.goal, .wall, .box]], 3, by decide⟩ :=
    ⟨"@$_\n.#$", by decide, rfl⟩
  have hcompiles : ∃ s, compilePair _ ⟨⟨0, 1⟩, ⟨1, 0⟩⟩ 13 = .ok s :=
    exists_compilePair hb.fits (by decide) (by decide) 13
  obtain ⟨s, hs⟩ := hcompiles
  obtain ⟨text, htext, hreads⟩ := conjunctions_written_alike.2 hb (.pair _ hs)
  exact ⟨⟨hne, conjunctions_written_alike.1 _ "  " hne⟩, _, s, text, hb, hs, htext, hreads⟩

end System

end Sokoban
