import Sokoban.Proofs.Formula.Atoms
import Sokoban.Proofs.Formula.WellTyped

/-!
# The words of a formula

The text of a well-typed formula is a row of words. An argument in parentheses is one word, and so
is a negation; the signs between arguments are words of their own. Since words can be told apart in
a row, formulas with the same text have the same words.
-/

namespace Sokoban

open Text

def Op.phrase (op : Op) (args : List (List String)) : List String :=
  match op with
  | .not => ["!" ++ String.join args.flatten]
  | .eventually => ["F", String.join args.flatten]
  | .and => if args.isEmpty then ["TRUE"] else ["&"].intercalate args
  | .add | .lt | .eq => [op.symbol].intercalate args

namespace Formula

variable {V : Type} [Variable V] {op : Op} {a f : Formula V} {args : List (Formula V)}

def isEnclosed (op : Op) : Formula V → Bool
  | app inner _ => op.parenthesizes inner
  | const _ | var _ => false

def words : Formula V → List String
  | const c => [c.text]
  | var v => [Variable.name v]
  | app op args =>
    op.phrase (args.map fun a => if isEnclosed op a then [parenthesized a.text] else words a)

def argumentWords (op : Op) (a : Formula V) : List String :=
  if isEnclosed op a then [parenthesized a.text] else a.words

@[simp] theorem argumentWords_const (c : Const) :
    argumentWords op (const c : Formula V) = [c.text] := by
  simp [argumentWords, isEnclosed, words]

@[simp] theorem argumentWords_var (v : V) : argumentWords op (var v) = [Variable.name v] := by
  simp [argumentWords, isEnclosed, words]

theorem argumentWords_enclosed (h : isEnclosed op a = true) :
    argumentWords op a = [parenthesized a.text] := by
  rw [argumentWords, if_pos h]

theorem argumentWords_open (h : isEnclosed op a = false) : argumentWords op a = a.words := by
  simp [argumentWords, h]

theorem words_app : (app op args).words = op.phrase (args.map (argumentWords op)) := by
  rw [words]
  rfl

theorem text_app : (app op args).text = layout op (args.map (argumentText op)) := by
  rw [text, argumentTexts_eq_map]

theorem argumentText_eq (op : Op) (a : Formula V) :
    argumentText op a = if isEnclosed op a then parenthesized a.text else a.text := by
  cases a <;> rfl

/-- Below a conjunction, a negation and `F` each argument is a single word. -/
theorem argumentWords_eq_singleton (op : Op) (h : ∀ inner, op.parenthesizes inner = true)
    (a : Formula V) :
    argumentWords op a = [argumentText op a] := by
  cases a with
  | const c => simp [argumentText, text]
  | var v => simp [argumentText, text]
  | app inner args => simp [argumentWords, argumentText, isEnclosed, h]

/-! ## The four forms of an application -/

/-- An application is an operator between its arguments, the empty conjunction, a negation or an
`F`. -/
theorem shape_of_accepts (h : op.Accepts (args.map kind)) :
    (op.isLeading = false ∧ args ≠ []) ∨ (op = .and ∧ args = []) ∨
      (op = .not ∧ ∃ a, args = [a]) ∨ (op = .eventually ∧ ∃ a, args = [a]) := by
  cases op with
  | add | lt | eq =>
      refine .inl ⟨rfl, ?_⟩
      rintro rfl
      simp [Op.Accepts] at h
  | and => by_cases hargs : args = [] <;> simp [hargs, Op.isLeading]
  | not | eventually =>
      obtain ⟨a, rfl, -⟩ := List.map_eq_singleton_iff.1 h
      simp

theorem words_between (hop : op.isLeading = false) (hargs : args ≠ []) :
    (app op args).words = [op.symbol].intercalate (args.map (argumentWords op)) := by
  rw [words_app]
  cases op <;> simp_all [Op.phrase, Op.isLeading, Op.symbol]

theorem text_between (hop : op.isLeading = false) (hargs : args ≠ []) :
    (app op args).text =
      String.intercalate (" " ++ op.symbol ++ " ") (args.map (argumentText op)) := by
  rw [text_app]
  cases op <;> simp_all [layout, Op.isLeading, Op.symbol]

theorem words_true : (app .and [] : Formula V).words = ["TRUE"] := by
  simp [words_app, Op.phrase]

theorem words_and_singleton (a : Formula V) :
    (app .and [a]).words = argumentWords .and a := by
  simp [words_app, Op.phrase]

theorem words_not (a : Formula V) :
    (app .not [a]).words = ["!" ++ argumentText .not a] := by
  simp [words_app, Op.phrase, argumentWords_eq_singleton .not fun _ => rfl]

theorem words_eventually (a : Formula V) :
    (app .eventually [a]).words = ["F", argumentText .eventually a] := by
  simp [words_app, Op.phrase, argumentWords_eq_singleton .eventually fun _ => rfl]

/-! ## Texts and words -/

structure Worded (f : Formula V) : Prop where
  word : ∀ w ∈ f.words, Word w
  text : spaced f.words = " " ++ f.text

theorem word_symbol (op : Op) : Word op.symbol := by
  cases op <;> exact .of_forall (by simp [Op.symbol])

namespace Worded

theorem nested (h : f.Worded) : Nested true f.text.toList :=
  nested_of_space (h.text ▸ nested_spaced h.word)

theorem word_argument (h : a.Worded) (op : Op) : ∀ w ∈ argumentWords op a, Word w := by
  unfold argumentWords
  split
  · simpa [parenthesized] using word_parentheses h.nested
  · exact h.word

theorem spaced_argument (h : a.Worded) (op : Op) :
    spaced (argumentWords op a) = " " ++ argumentText op a := by
  rw [argumentWords, argumentText_eq]
  split
  · simp
  · exact h.text

theorem word_argumentText (h : a.Worded) (op : Op)
    (hop : ∀ inner, op.parenthesizes inner = true) :
    Word (argumentText op a) := by
  have hword := h.word_argument op
  rw [argumentWords_eq_singleton op hop] at hword
  exact hword _ (List.mem_singleton_self _)

theorem word_intercalate (op : Op) (h : ∀ a ∈ args, a.Worded) :
    ∀ w ∈ [op.symbol].intercalate (args.map (argumentWords op)), Word w := by
  induction args with
  | nil => simp
  | cons a rest ih =>
      simp only [List.forall_mem_cons] at h
      cases rest with
      | nil => simpa using h.1.word_argument op
      | cons b more =>
          have hrest := ih h.2
          simp only [List.map_cons] at hrest ⊢
          rw [List.intercalate_cons_cons]
          simp only [List.forall_mem_append, List.forall_mem_singleton]
          exact ⟨⟨h.1.word_argument op, word_symbol op⟩, hrest⟩

theorem spaced_intercalate (op : Op) (hargs : args ≠ []) (h : ∀ a ∈ args, a.Worded) :
    spaced ([op.symbol].intercalate (args.map (argumentWords op))) =
      " " ++ String.intercalate (" " ++ op.symbol ++ " ") (args.map (argumentText op)) := by
  induction args with
  | nil => exact absurd rfl hargs
  | cons a rest ih =>
      simp only [List.forall_mem_cons] at h
      cases rest with
      | nil => simpa using h.1.spaced_argument op
      | cons b more =>
          have hrest := ih (by simp) h.2
          simp only [List.map_cons] at hrest ⊢
          rw [List.intercalate_cons_cons, String.intercalate_cons_cons, spaced_append,
            spaced_append, hrest, h.1.spaced_argument op]
          simp [String.append_assoc]

theorem between (hop : op.isLeading = false) (hargs : args ≠ []) (h : ∀ a ∈ args, a.Worded) :
    (app op args).Worded where
  word := by
    rw [words_between hop hargs]
    exact word_intercalate op h
  text := by
    rw [words_between hop hargs, text_between hop hargs]
    exact spaced_intercalate op hargs h

theorem empty_and : (app .and [] : Formula V).Worded where
  word := by
    have htrue : Word "TRUE" := .of_forall (by simp)
    simpa [words_true] using htrue
  text := by simp [words_true, text_app, layout]

theorem negation (h : a.Worded) : (app .not [a]).Worded where
  word := by
    have hsign : Nested false "!".toList := .of_forall (by simp)
    simpa [words_not, Word] using hsign.append (h.word_argumentText .not fun _ => rfl)
  text := by simp [words_not, text_app, layout, Op.symbol]

theorem eventually (h : a.Worded) : (app .eventually [a]).Worded where
  word := by
    simpa [words_eventually] using
      ⟨word_symbol .eventually, h.word_argumentText .eventually fun _ => rfl⟩
  text := by
    rw [words_eventually, text_app]
    simp [layout, Op.symbol, ← String.append_assoc]

end Worded

variable [Variable.Legible V]

theorem WellTyped.worded (h : f.WellTyped) : f.Worded := by
  induction h with
  | const c => exact ⟨by simpa [words] using c.word_text, by simp [words, Formula.text]⟩
  | var v => exact ⟨by simpa [words] using Variable.Legible.word v, by simp [words, Formula.text]⟩
  | app _ happly ih =>
      obtain ⟨hop, rfl⟩ := apply_eq_ok_iff.1 happly
      rcases shape_of_accepts hop with ⟨hop, hargs⟩ | ⟨rfl, rfl⟩ | ⟨rfl, a, rfl⟩ | ⟨rfl, a, rfl⟩
      · exact .between hop hargs ih
      · exact .empty_and
      · exact .negation (ih a (List.mem_singleton_self a))
      · exact .eventually (ih a (List.mem_singleton_self a))

end Formula

end Sokoban
