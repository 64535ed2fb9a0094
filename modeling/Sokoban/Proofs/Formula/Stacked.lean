import Sokoban.Model.Script
import Sokoban.Proofs.Formula.Strictness
import Sokoban.Proofs.Formula.Words
import Sokoban.Proofs.Text.Separators

/-!
# Conjunctions over several lines

A conjunction over several lines and one on a single line have the same texts between their
separators: both put a conjunct in parentheses exactly if it is an application. Whatever a formula
is, its text has its parentheses closed, so the separators of the one can be found in the text of
the other.
-/

namespace Sokoban.Formula

open Text

variable {V : Type} [Variable V] {op : Op} {args : List (Formula V)}

/-! ## The two printers of conjuncts -/

theorem lineText_eq_argumentText (f : Formula V) : f.lineText = argumentText .and f := by
  cases f with
  | const c => rfl
  | var v => rfl
  | app inner args => rfl

theorem stackedText_and (margin : String) (args : List (Formula V)) :
    (app .and args).stackedText margin =
      ("\n" ++ margin ++ "& ").intercalate (args.map (argumentText .and)) := by
  have htexts : args.map lineText = args.map (argumentText .and) :=
    List.map_congr_left fun f _ => lineText_eq_argumentText f
  rw [← htexts]
  rfl

theorem text_and_eq_intercalate (hne : args ≠ []) :
    (app .and args).text = " & ".intercalate (args.map (argumentText .and)) :=
  text_between rfl hne

/-! ## Parentheses -/

theorem nested_layout {texts : List String} (op : Op)
    (h : ∀ t ∈ texts, Nested true t.toList) : Nested true (layout op texts).toList := by
  have hsign {s : String} (hs : s.toList.all (fun c => c != '(' && c != ')') = true) :
      Nested true s.toList := nested_of_no_parenthesis hs
  cases op with
  | add | lt | eq => exact nested_intercalate (hsign rfl) h
  | not =>
      rw [layout, String.toList_append]
      exact (hsign rfl).append (nested_join h)
  | eventually =>
      rw [layout, String.toList_append]
      exact (hsign rfl).append (nested_join h)
  | and =>
      rw [layout]
      split
      · exact hsign rfl
      · exact nested_intercalate (hsign rfl) h

section Legible

variable [Variable.Legible V]

/-- The parentheses of a formula are closed, also if operators are misapplied in it. -/
theorem nested_text (f : Formula V) : Nested true f.text.toList := by
  induction f using induction with
  | const c =>
      rw [text]
      exact c.word_text.weaken
  | var v =>
      rw [text]
      exact (Variable.Legible.word v).weaken
  | app op args ih =>
      rw [text_app]
      refine nested_layout op (List.forall_mem_map.2 fun a ha => ?_)
      rw [argumentText_eq]
      split
      · exact (word_parentheses (ih a ha)).weaken
      · exact ih a ha

/-- Below a conjunction every formula is written as a single word. -/
theorem word_argumentText_and (f : Formula V) : Word (argumentText .and f) := by
  cases f with
  | const c =>
      rw [argumentText, text]
      exact c.word_text
  | var v =>
      rw [argumentText, text]
      exact Variable.Legible.word v
  | app inner args => exact word_parentheses (nested_text (app inner args))

end Legible

/-! ## Both forms of a conjunction -/

/-- The two written forms of a conjunction differ in their separators only. Where names are legible,
these are found by counting the parentheses of the text. -/
structure WrittenAlike (margin : String) (args : List (Formula V)) : Prop where
  text_eq : (app .and args).text = " & ".intercalate (args.map (argumentText .and))
  stacked_eq : (app .and args).stackedText margin =
    ("\n" ++ margin ++ "& ").intercalate (args.map (argumentText .and))
  reseparated : Variable.Legible V → ((app .and args).stackedText margin).toList =
    reseparate ("\n" ++ margin ++ "& ").toList 0 (app .and args).text.toList

theorem writtenAlike_of_ne_nil (hne : args ≠ []) (margin : String) :
    WrittenAlike margin args where
  text_eq := text_and_eq_intercalate hne
  stacked_eq := stackedText_and margin args
  reseparated _ := by
    have hword : ∀ t ∈ args.map (argumentText .and), Word t :=
      List.forall_mem_map.2 fun f _ => word_argumentText_and f
    rw [text_and_eq_intercalate hne, stackedText_and, reseparate_intercalate hword]

end Sokoban.Formula
