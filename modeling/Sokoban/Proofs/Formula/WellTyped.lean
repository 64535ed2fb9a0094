import Sokoban.Formula.Typing
import Sokoban.Formula.Value
import Sokoban.Proofs.Result

/-!
# Well-typed formulas

A formula is well-typed if each application in it was made by `Formula.apply`. `Op.Accepts` says
operator by operator which arguments `apply` takes. The number of arguments is what evaluation takes
too (`Op.takes`), so nothing well-typed is refused there for its length.
-/

namespace Sokoban

namespace Const

theorem kind_eq_int_iff {c : Const} : c.kind = .int ↔ ∃ n, c = int n := by
  cases c <;> simp [kind]

theorem kind_eq_bool_iff {c : Const} : c.kind = .bool ↔ ∃ b, c = bool b := by
  cases c <;> simp [kind]

end Const

namespace Op

/-- The kinds of arguments that an operator takes. -/
def Accepts : Op → List Kind → Prop
  | add, kinds => 2 ≤ kinds.length ∧ ∀ k ∈ kinds, k = .int
  | lt, kinds => kinds = [.int, .int]
  | eq, kinds => ∃ k, kinds = [k, k]
  | not, kinds => kinds = [.bool]
  | and, kinds => ∀ k ∈ kinds, k = .bool
  | eventually, kinds => kinds = [.bool]

theorem takes_iff {op : Op} {n : Nat} : op.takes n = true ↔ match op with
    | add => 2 ≤ n
    | lt | eq => n = 2
    | not | eventually => n = 1
    | and => True := by
  rw [takes, Bool.and_eq_true, decide_eq_true_iff]
  cases op <;> simp [minArity, takesFewerThan, maxArity?] <;> omega

theorem find?_not_isArithmetic_eq_none_iff {kinds : List Kind} :
    (kinds.find? fun k => !k.isArithmetic) = none ↔ ∀ k ∈ kinds, k = .int := by
  have hint : ∀ k : Kind, k.isArithmetic = true ↔ k = .int := fun k => by cases k <;> decide
  simp [hint]

theorem kinds_eq_ok_iff {op : Op} {kinds : List Kind} {k : Kind} :
    typing.kinds op kinds = .ok k ↔ k = op.kind ∧ match op with
      | add | lt => ∀ k ∈ kinds, k = .int
      | eq => ∃ l rest, kinds = l :: l :: rest
      | not | and | eventually => ∀ k ∈ kinds, k = .bool := by
  cases op
  case add | lt =>
    simp only [← find?_not_isArithmetic_eq_none_iff, typing.kinds]
    split <;> grind
  case not | and | eventually =>
    simp only [typing.kinds, List.all_eq_true, beq_iff_eq]
    split <;> grind
  case eq =>
    match kinds with
    | [] | [_] => simp [typing.kinds]
    | l :: r :: rest => by_cases h : l = r <;> simp [typing.kinds, h, eq_comm]

theorem typing_eq_ok_iff_takes {op : Op} {kinds : List Kind} {k : Kind} :
    op.typing kinds = .ok k ↔ op.takes kinds.length = true ∧ typing.kinds op kinds = .ok k := by
  unfold typing takes takesFewerThan
  cases op.maxArity? <;> grind

theorem typing_eq_ok_iff {op : Op} {kinds : List Kind} {k : Kind} :
    op.typing kinds = .ok k ↔ op.Accepts kinds ∧ k = op.kind := by
  rw [typing_eq_ok_iff_takes, takes_iff, kinds_eq_ok_iff]
  cases op
  case add => simp [Accepts]; grind
  case and => simp [Accepts]; grind
  case not | eventually =>
    match kinds with
    | [] | [_] | _ :: _ :: _ => simp [Accepts, and_comm]
  case lt | eq =>
    match kinds with
    | [] | [_] | [_, _] | _ :: _ :: _ :: _ => simp [Accepts, and_comm]

theorem takes_of_accepts {op : Op} {kinds : List Kind} (h : op.Accepts kinds) :
    op.takes kinds.length = true :=
  (typing_eq_ok_iff_takes.1 (typing_eq_ok_iff.2 ⟨h, rfl⟩)).1

end Op

namespace Formula

variable {V : Type} [Variable V] {op : Op} {args : List (Formula V)} {f : Formula V}

theorem apply_eq_ok_iff :
    apply op args = .ok f ↔ op.Accepts (args.map kind) ∧ f = app op args := by
  unfold apply
  cases h : op.typing (args.map kind) with
  | ok k => simp [(Op.typing_eq_ok_iff.1 h).1, eq_comm]
  | error issue =>
      have hop : ¬ op.Accepts (args.map kind) := by
        intro hop
        have := Op.typing_eq_ok_iff.2 ⟨hop, rfl⟩
        simp [h] at this
      simp [Result.fail, hop]

/-- Every application in the formula was made by `apply`. -/
inductive WellTyped : Formula V → Prop
  | const (c : Const) : WellTyped (const c)
  | var (v : V) : WellTyped (var v)
  | app {op : Op} {args : List (Formula V)} {f : Formula V} (hargs : ∀ a ∈ args, WellTyped a)
      (happly : apply op args = .ok f) : WellTyped f

theorem wellTyped_app_iff :
    (app op args).WellTyped ↔ (∀ a ∈ args, a.WellTyped) ∧ op.Accepts (args.map kind) := by
  constructor
  · intro h
    cases h with
    | app hargs happly =>
        obtain ⟨hop, heq⟩ := apply_eq_ok_iff.1 happly
        cases heq
        exact ⟨hargs, hop⟩
  · intro h
    exact .app h.1 (apply_eq_ok_iff.2 ⟨h.2, rfl⟩)

/-- A formula is part of another one: it is the whole of it, or part of an argument. -/
inductive PartOf : Formula V → Formula V → Prop
  | refl (f : Formula V) : PartOf f f
  | arg {f a : Formula V} {op : Op} {args : List (Formula V)} (ha : a ∈ args)
      (hf : PartOf f a) : PartOf f (app op args)

section

omit [Variable V]

variable {g : Formula V}

@[simp] theorem partOf_const_iff {c : Const} : g.PartOf (const c) ↔ g = const c := by
  constructor
  · intro h
    cases h
    rfl
  · rintro rfl
    exact .refl _

@[simp] theorem partOf_var_iff {v : V} : g.PartOf (var v) ↔ g = var v := by
  constructor
  · intro h
    cases h
    rfl
  · rintro rfl
    exact .refl _

theorem partOf_app_iff :
    g.PartOf (app op args) ↔ g = app op args ∨ ∃ a ∈ args, g.PartOf a := by
  constructor
  · intro h
    cases h with
    | refl => exact .inl rfl
    | arg ha hg => exact .inr ⟨_, ha, hg⟩
  · rintro (rfl | ⟨a, ha, hg⟩)
    · exact .refl _
    · exact .arg ha hg

end

end Formula

end Sokoban
