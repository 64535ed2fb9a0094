import Sokoban.Formula.Basic
import Sokoban.Proofs.Text.Delimited
import Sokoban.Proofs.Text.Words

/-!
# How constants and variables are written

Both are written as single words that begin with a letter or a digit. The word of a variable tells
which variable it is; the word of a constant tells its numeral, which a number may share with the
content of a cell.
-/

namespace Sokoban

open Text

/-! ## Numbers -/

namespace Text

theorem isDigit_of_mem_toString {n : Nat} {c : Char} (h : c ∈ (toString n).toList) :
    c.isDigit = true := by
  rw [Nat.toString_eq_repr, Nat.toList_repr] at h
  exact Nat.isDigit_of_mem_toDigits (by decide) (by decide) h

theorem nested_toString {spaces : Bool} (n : Nat) : Nested spaces (toString n).toList := by
  refine .of_forall fun c hc => ?_
  have hdigit := isDigit_of_mem_toString hc
  refine ⟨?_, ?_, ?_⟩ <;>
    · rintro rfl
      simp at hdigit

/-- The word begins with a letter or a digit, and is not the sign `F`. -/
structure Plain (w : String) : Prop where
  head : ∃ c ∈ w.toList.head?, c.isAlphanum = true
  ne : w ≠ "F"

theorem plain_toString (n : Nat) : Plain (toString n) := by
  have hne : (toString n).toList ≠ [] := by
    rw [Nat.toString_eq_repr, Nat.toList_repr]
    exact Nat.toDigits_ne_nil
  constructor
  · have hdigit := isDigit_of_mem_toString (List.head_mem hne)
    refine ⟨_, List.head?_eq_some_head hne, ?_⟩
    rw [Char.isAlphanum, hdigit, Bool.or_true]
  · intro h
    have hdigit : 'F'.isDigit = true := isDigit_of_mem_toString (n := n) (by simp [h])
    cases hdigit

end Text

/-! ## Constants -/

namespace Const

def numeral : Const → Const
  | bool b => bool b
  | int n => int n
  | content c => int c.code

variable {c d : Const}

theorem eq_of_numeral_eq (h : c.numeral = d.numeral) (hkind : c.kind = d.kind) : c = d := by
  cases c <;> cases d <;> simp_all [numeral, kind]
  exact Content.code_injective h

theorem numeral_eq_bool_iff {b : Bool} : c.numeral = bool b ↔ c = bool b := by
  cases c <;> simp [numeral]

theorem text_bool_ne (b : Bool) (n : Nat) : (bool b).text ≠ toString n := by
  intro h
  have hletter : 'E' ∈ (bool b).text.toList := by
    cases b <;> decide
  have hdigit := isDigit_of_mem_toString (h ▸ hletter)
  cases hdigit

/-- What two constants with the same text have in common is the numeral. -/
theorem numeral_eq_of_text_eq (h : c.text = d.text) : c.numeral = d.numeral := by
  cases c with
  | bool b =>
      cases d with
      | bool b' =>
          revert h
          cases b <;> cases b' <;> decide
      | int n => exact absurd h (text_bool_ne b n)
      | content c => exact absurd h (text_bool_ne b c.code)
  | int m =>
      cases d with
      | bool b => exact absurd h.symm (text_bool_ne b m)
      | int n => exact congrArg int (eq_of_toString_eq h)
      | content c => exact congrArg int (eq_of_toString_eq h)
  | content c =>
      cases d with
      | bool b => exact absurd h.symm (text_bool_ne b c.code)
      | int n => exact congrArg int (eq_of_toString_eq h)
      | content c => exact congrArg int (eq_of_toString_eq h)

theorem not_mem_text (c : Const) : '_' ∉ c.text.toList := by
  cases c with
  | bool b => cases b <;> decide
  | int n => exact not_mem_toList_toString rfl n
  | content c => exact not_mem_toList_toString rfl c.code

theorem word_text (c : Const) : Word c.text := by
  cases c with
  | bool b => cases b <;> exact .of_forall (by simp [text])
  | int n => exact nested_toString n
  | content c => exact nested_toString c.code

theorem plain_text (c : Const) : Plain c.text := by
  cases c with
  | bool b =>
      cases b with
      | true => exact ⟨⟨'T', rfl, rfl⟩, by decide⟩
      | false => exact ⟨⟨'F', rfl, rfl⟩, by decide⟩
  | int n => exact plain_toString n
  | content c => exact plain_toString c.code

end Const

/-! ## Variables -/

theorem delimited_cell {s : String} {c : Char} (hs : s.toList.head? = some c)
    (hc : c.isDigit = false) : Delimited fun p : Pos => (Var.cell p).name ++ s := by
  have hrow : Delimited fun n : Nat => toString n ++ "_" := delimited_number rfl rfl
  have hcol : Delimited fun n : Nat => toString n ++ s := delimited_number hs hc
  have hpos : ∀ p q : Pos, (p.row, p.col) = (q.row, q.col) → p = q := by
    intro p q h
    cases p
    cases q
    simpa using h
  refine (((hrow.pair hcol).comp hpos).prepend "pos_").congr fun p => ?_
  simp only [Var.name, String.append_assoc]

/-- Names by which variables are told apart from each other and from everything else in a formula.
No variable is a truth value. -/
class Variable.Legible (V : Type) [Variable V] : Prop where
  kind_ne_bool (v : V) : Variable.kind v ≠ .bool
  name_inj {v w : V} : Variable.name v = Variable.name w → v = w
  name_ne_text (v : V) (c : Const) : Variable.name v ≠ c.text
  word (v : V) : Word (Variable.name v)
  plain (v : V) : Plain (Variable.name v)

namespace Var

theorem toList_name_cell (p : Pos) : (cell p).name.toList =
    "pos_".toList ++ ((toString p.row).toList ++ ("_".toList ++ (toString p.col).toList)) := by
  simp [name]

theorem mem_name (v : Var) : '_' ∈ v.name.toList := by
  cases v with
  | cell p => simp [toList_name_cell]
  | steps => decide

theorem word_name (v : Var) : Word v.name := by
  cases v with
  | cell p =>
      rw [Word, toList_name_cell]
      exact (Nested.of_forall (by simp)).append ((nested_toString _).append
        ((Nested.of_forall (by simp)).append (nested_toString _)))
  | steps => exact .of_forall (by simp [name])

theorem head?_name (v : Var) :
    v.name.toList.head? = some 'p' ∨ v.name.toList.head? = some 's' := by
  cases v with
  | cell p => simp [toList_name_cell]
  | steps => simp [name]

theorem name_inj {v w : Var} (h : v.name = w.name) : v = w := by
  have hcell : Delimited fun p : Pos => (cell p).name ++ " " := delimited_cell rfl rfl
  cases v with
  | cell p =>
      cases w with
      | cell q =>
          have heq : (cell p).name ++ " " ++ "" = (cell q).name ++ " " ++ "" := by rw [h]
          rw [(hcell heq).1]
      | steps => simp [name, ← String.toList_inj] at h
  | steps =>
      cases w with
      | cell q => simp [name, ← String.toList_inj] at h
      | steps => rfl

theorem plain_name (v : Var) : Plain v.name where
  head := v.head?_name.elim (fun h => ⟨'p', h, rfl⟩) fun h => ⟨'s', h, rfl⟩
  ne h := absurd (h ▸ v.mem_name) (by decide)

instance : Variable.Legible Var where
  kind_ne_bool v := by cases v <;> simp [Variable.kind, kind]
  name_inj := name_inj
  name_ne_text v c h := c.not_mem_text (h ▸ v.mem_name)
  word := word_name
  plain := plain_name

end Var

namespace StepVar

theorem toList_name_after (v : Var) :
    (after v).name.toList = "next".toList ++ ('(' :: (v.name.toList ++ [')'])) := by
  simp [name, after]

theorem head?_name_after (v : Var) : (after v).name.toList.head? = some 'n' := by
  simp [toList_name_after]

theorem mem_name (v : StepVar) : '_' ∈ v.name.toList := by
  obtain ⟨v, next⟩ := v
  cases next with
  | false => exact v.mem_name
  | true =>
      show '_' ∈ (after v).name.toList
      simp [toList_name_after, v.mem_name]

theorem word_name (v : StepVar) : Word v.name := by
  obtain ⟨v, next⟩ := v
  cases next with
  | false => exact v.word_name
  | true =>
      show Nested false (after v).name.toList
      rw [toList_name_after]
      exact (Nested.of_forall (by simp)).append (.group v.word_name.weaken .nil)

theorem plain_name (v : StepVar) : Plain v.name := by
  obtain ⟨v, next⟩ := v
  cases next with
  | false => exact v.plain_name
  | true =>
      exact ⟨⟨'n', head?_name_after v, rfl⟩, fun h => absurd (h ▸ mem_name ⟨v, true⟩) (by decide)⟩

/-- Only what is read after the step begins with `n`. -/
theorem name_after_ne (v w : Var) : (after v).name ≠ w.name := by
  intro h
  have hhead := head?_name_after v
  rcases w.head?_name with hw | hw <;> simp [h, hw] at hhead

theorem name_inj {v w : StepVar} (h : v.name = w.name) : v = w := by
  obtain ⟨v, next⟩ := v
  obtain ⟨w, next'⟩ := w
  cases next <;> cases next'
  · rw [Var.name_inj (v := v) (w := w) h]
  · exact absurd h.symm (name_after_ne w v)
  · exact absurd h (name_after_ne v w)
  · have heq : (after v).name.toList = (after w).name.toList := congrArg String.toList h
    rw [toList_name_after, toList_name_after] at heq
    simp only [List.append_cancel_left_eq, List.append_cancel_right_eq, List.cons.injEq,
      true_and, String.toList_inj] at heq
    rw [Var.name_inj heq]

instance : Variable.Legible StepVar where
  kind_ne_bool v := Variable.Legible.kind_ne_bool v.var
  name_inj := name_inj
  name_ne_text v c h := c.not_mem_text (h ▸ v.mem_name)
  word := word_name
  plain := plain_name

end StepVar

end Sokoban
