import Sokoban.Proofs.Formula.Words

/-!
# The outermost operator shows in the words

A sign among the words of a formula is its outermost operator, or one that binds no looser. The
loosest sign that occurs is therefore the outermost operator: an argument whose operator binds as
loosely stands in parentheses, where its signs are part of a longer word.
-/

namespace Sokoban

open Text

namespace Formula

variable {V : Type} {op x : Op} {a f : Formula V} {args : List (Formula V)}
variable {ws : List String}

/-! ## Reading the operator off the words -/

/-- The operator that is written outermost. A conjunction of one constant or variable is not told
from its conjunct, and the empty conjunction not from a constant. -/
def operator? : Formula V → Option Op
  | const _ | var _ | app .and [] => none
  | app .and [a] => if a.isApp then some .and else none
  | app op _ => some op

theorem isEnclosed_of_operator? (h : a.operator? = some x) :
    isEnclosed op a = op.parenthesizes x := by
  revert h
  fun_cases operator? a <;> simp_all [isEnclosed]

theorem operator?_and_singleton (h : a.isApp = true) : (app .and [a]).operator? = some .and := by
  simp [operator?, h]

theorem operator?_between (hop : op.isLeading = false) (b : Formula V) :
    (app op (a :: b :: args)).operator? = some op := by
  cases op <;> simp_all [operator?, Op.isLeading]

def signs : List Op := [.and, .eq, .lt, .add, .eventually]

/-- The operator of which a word is the whole application: a negation or a conjunction of one
argument. -/
def leading? (w : String) : Option Op :=
  if w.toList.head? = some '!' then some .not
  else if w.toList.head? = some '(' then some .and
  else none

/-- The outermost operator, as the words of a formula tell it. -/
def outermost (ws : List String) : Option Op :=
  (signs.find? fun op => op.symbol ∈ ws).or (ws.head?.bind leading?)

theorem mem_signs_of_between (h : op.isLeading = false) : op ∈ signs := by
  cases op <;> simp_all [Op.isLeading, signs]

theorem pairwise_signs : signs.Pairwise fun x y => x.precedence ≤ y.precedence := by decide

theorem symbol_inj {x y : Op} (h : x.symbol = y.symbol) : x = y := by
  revert h
  cases x <;> cases y <;> decide

/-- Words that are no signs are told by how the first of them begins. -/
theorem outermost_of_no_sign (h : ∀ x ∈ signs, x.symbol ∉ ws) :
    outermost ws = ws.head?.bind leading? := by
  have hnone : (signs.find? fun op => decide (op.symbol ∈ ws)) = none := by
    simpa using h
  rw [outermost, hnone, Option.none_or]

/-- A sign among the words is not looser than the outermost operator, which is one of them too. -/
theorem exists_outermost (hx : x ∈ signs) (hmem : x.symbol ∈ ws) :
    ∃ y ∈ signs, outermost ws = some y ∧ y.symbol ∈ ws ∧ y.precedence ≤ x.precedence := by
  have hsome : (signs.find? fun op => decide (op.symbol ∈ ws)).isSome :=
    List.find?_isSome.2 ⟨x, hx, by simpa using hmem⟩
  obtain ⟨y, hy⟩ := Option.isSome_iff_exists.1 hsome
  obtain ⟨hymem, before, behind, hsigns, hbefore⟩ := List.find?_eq_some_iff_append.1 hy
  have hloose := pairwise_signs
  rw [hsigns, List.pairwise_append, List.pairwise_cons] at hloose
  have hle : y.precedence ≤ x.precedence := by
    rw [hsigns, List.mem_append, List.mem_cons] at hx
    rcases hx with hx | rfl | hx
    · simpa [hmem] using hbefore x hx
    · exact le_refl _
    · exact hloose.2.1.1 x hx
  exact ⟨y, List.mem_of_find?_eq_some hy, by rw [outermost, hy, Option.some_or],
    by simpa using hymem, hle⟩

/-- An operator is outermost if its sign is there and no other sign is as loose. -/
theorem outermost_of_mem (hop : op ∈ signs) (hmem : op.symbol ∈ ws)
    (h : ∀ x ∈ signs, x.precedence ≤ op.precedence → x.symbol ∈ ws → x = op) :
    outermost ws = some op := by
  obtain ⟨y, hy, heq, hymem, hle⟩ := exists_outermost hop hmem
  rw [heq, h y hy hle hymem]

/-! ## Words that are no signs -/

theorem symbol_ne_of_plain {w : String} (hw : Plain w) (x : Op) : x.symbol ≠ w := by
  rintro rfl
  obtain ⟨c, hc, halnum⟩ := hw.head
  cases x with
  | eventually => exact hw.ne rfl
  | add | lt | eq | not | and =>
      obtain rfl := Option.some.inj hc
      revert halnum
      decide

theorem symbol_ne_parenthesized (x : Op) (s : String) : x.symbol ≠ parenthesized s := by
  intro h
  have hhead : x.symbol.toList.head? = some '(' := by simp [h, parenthesized]
  revert hhead
  cases x <;> decide

theorem symbol_ne_negation (hx : x ∈ signs) (s : String) : x.symbol ≠ "!" ++ s := by
  intro h
  have hhead : x.symbol.toList.head? = some '!' := by simp [h]
  revert hx hhead
  cases x <;> decide

theorem outermost_plain {w : String} (hw : Plain w) : outermost [w] = none := by
  rw [outermost_of_no_sign fun x _ => by simpa using symbol_ne_of_plain hw x]
  obtain ⟨c, hc, halnum⟩ := hw.head
  have hne : c ≠ '!' ∧ c ≠ '(' := by
    constructor <;> rintro rfl <;> revert halnum <;> decide
  simp_all [leading?]

theorem outermost_parenthesized (s : String) : outermost [parenthesized s] = some .and := by
  rw [outermost_of_no_sign fun x _ => by simpa using symbol_ne_parenthesized x s]
  simp [leading?, parenthesized]

theorem outermost_negation (s : String) : outermost ["!" ++ s] = some .not := by
  rw [outermost_of_no_sign fun x hx => by simpa using symbol_ne_negation hx s]
  simp [leading?]

/-! ## The words of a well-typed formula -/

variable [Variable V]

/-- A sign stays out of the words of an argument if whatever is as loose is enclosed. -/
theorem symbol_notMem_argumentWords (ha : outermost a.words = a.operator?) (hx : x ∈ signs)
    (h : ∀ y : Op, y.precedence ≤ x.precedence → op.parenthesizes y = true) :
    x.symbol ∉ argumentWords op a := by
  intro hmem
  cases hopen : isEnclosed op a with
  | true =>
      rw [argumentWords_enclosed hopen, List.mem_singleton] at hmem
      exact symbol_ne_parenthesized x _ hmem
  | false =>
      rw [argumentWords_open hopen] at hmem
      obtain ⟨y, -, hy, -, hle⟩ := exists_outermost hx hmem
      rw [isEnclosed_of_operator? (ha ▸ hy), h y hle] at hopen
      simp at hopen

theorem parenthesizes_of_le {y : Op} (h : y.precedence ≤ op.precedence) :
    op.parenthesizes y = true := by
  simp [Op.parenthesizes, h]

theorem mem_intercalate {s w : String} {ls : List (List String)}
    (h : w ∈ [s].intercalate ls) : w = s ∨ ∃ l ∈ ls, w ∈ l := by
  induction ls with
  | nil => simp at h
  | cons l rest ih =>
      cases rest with
      | nil => simp_all
      | cons m more =>
          rw [List.intercalate_cons_cons] at h
          grind

/-- Two arguments or more are told by the sign between them. -/
theorem outermost_between {b : Formula V} (hop : op.isLeading = false)
    (h : ∀ c ∈ a :: b :: args, outermost c.words = c.operator?) :
    outermost (app op (a :: b :: args)).words = some op := by
  rw [words_between hop (List.cons_ne_nil _ _)]
  refine outermost_of_mem (mem_signs_of_between hop) (by simp [List.intercalate_cons_cons])
    fun x hx hle hmem => ?_
  rcases mem_intercalate hmem with heq | ⟨ws, hws, hmem⟩
  · exact symbol_inj heq
  · obtain ⟨c, hc, rfl⟩ := List.mem_map.1 hws
    exact absurd hmem (symbol_notMem_argumentWords (h c hc) hx fun y hy =>
      parenthesizes_of_le (hy.trans hle))

/-- A conjunction of one argument is told if the argument is enclosed. -/
theorem outermost_and_singleton (h : outermost a.words = a.operator?) :
    outermost (app .and [a]).words = (app .and [a]).operator? := by
  rw [words_and_singleton]
  cases a with
  | const c => simpa [operator?, isApp, words] using h
  | var v => simpa [operator?, isApp, words] using h
  | app op args =>
      rw [argumentWords_enclosed rfl, outermost_parenthesized, operator?_and_singleton rfl]

theorem outermost_eventually (h : outermost a.words = a.operator?) :
    outermost (app .eventually [a]).words = some .eventually := by
  have hwords : (app .eventually [a]).words = "F" :: argumentWords .eventually a := by
    rw [words_eventually, argumentWords_eq_singleton .eventually fun _ => rfl]
  rw [hwords]
  refine outermost_of_mem (by decide) (by simp [Op.symbol]) fun x hx _ hmem => ?_
  rcases List.mem_cons.1 hmem with heq | hmem
  · exact symbol_inj heq
  · exact absurd hmem (symbol_notMem_argumentWords h hx fun _ _ => rfl)

/-- Only the empty conjunction has no arguments, and it is not told to be an application. -/
theorem args_ne_nil (h : (app op args).WellTyped) (hop : (app op args).operator? = some op) :
    args ≠ [] := by
  rcases shape_of_accepts (wellTyped_app_iff.1 h).2 with
    ⟨-, hargs⟩ | ⟨rfl, rfl⟩ | ⟨rfl, a, rfl⟩ | ⟨rfl, a, rfl⟩
  · exact hargs
  · simp [operator?] at hop
  · simp
  · simp

/-- The words of a well-typed formula tell its outermost operator. -/
theorem outermost_words [Variable.Legible V] (h : f.WellTyped) :
    outermost f.words = f.operator? := by
  induction h with
  | const c => simpa [words, operator?] using outermost_plain c.plain_text
  | var v => simpa [words, operator?] using outermost_plain (Variable.Legible.plain v)
  | @app op args _ _ happly ih =>
      obtain ⟨hop, rfl⟩ := apply_eq_ok_iff.1 happly
      rcases shape_of_accepts hop with
        ⟨hbetween, hargs⟩ | ⟨rfl, rfl⟩ | ⟨rfl, a, rfl⟩ | ⟨rfl, a, rfl⟩
      · cases args with
        | nil => exact absurd rfl hargs
        | cons a rest =>
            cases rest with
            | nil =>
                -- no other operator between arguments takes one alone
                obtain rfl : op = .and := by
                  cases op <;> simp_all [Op.Accepts, Op.isLeading]
                exact outermost_and_singleton (ih a (List.mem_singleton_self a))
            | cons b more => rw [outermost_between hbetween ih, operator?_between hbetween]
      · have htrue : outermost ["TRUE"] = none := by decide
        rw [words_true, htrue]
        rfl
      · rw [words_not, outermost_negation]
        rfl
      · rw [outermost_eventually (ih a (List.mem_singleton_self a))]
        rfl

end Formula

end Sokoban
