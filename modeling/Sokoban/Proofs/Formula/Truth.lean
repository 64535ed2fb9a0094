import Sokoban.Formula.Typing
import Sokoban.Formula.Value
import Sokoban.Proofs.Result

/-!
# When formulas are true

A formula is decided by a model if it evaluates to a truth value, and holds if that value is true.
Evaluation is strict, so a conjunction is decided only if all its conjuncts are; then it holds
exactly when all of them do.
-/

namespace Sokoban

namespace Formula

variable {V : Type} [Variable V] {model : V → Option Const}

def Holds (model : V → Option Const) (f : Formula V) : Prop := f.value model = .ok (.bool true)

/-- The formula evaluates to a truth value, without an error and without a crash. -/
def IsDecided (model : V → Option Const) (f : Formula V) : Prop :=
  ∃ b, f.value model = .ok (.bool b)

theorem IsDecided.value_eq_decide {f : Formula V} {P : Prop} [Decidable P]
    (hf : f.IsDecided model) (h : f.Holds model ↔ P) :
    f.value model = .ok (.bool (decide P)) := by
  obtain ⟨b, hb⟩ := hf
  have hbP : b = true ↔ P := by
    rw [← h, Holds, hb]
    simp
  rw [hb]
  cases b with
  | true => simp [hbP.1 rfl]
  | false =>
      have hP : ¬ P := fun hP => Bool.false_ne_true (hbP.2 hP)
      simp [hP]

theorem value_const (c : Const) : (const c : Formula V).value model = .ok c := by
  rw [value]

theorem value_var {v : V} {c : Const} (h : model v = some c) :
    (var v : Formula V).value model = .ok c := by
  rw [value, h]

theorem value_app {op : Op} {args : List (Formula V)} {values : List Const} {c : Const}
    (hargs : argumentValues model args = .ok values) (hop : op.value values = .ok c) :
    (app op args).value model = .ok c := by
  rw [value, hargs, Result.ok_bind, hop]
  rfl

theorem argumentValues_pair {l r : Formula V} {c d : Const} (hl : l.value model = .ok c)
    (hr : r.value model = .ok d) : argumentValues model [l, r] = .ok [c, d] := by
  simp [argumentValues, hl, hr]

theorem argumentValues_eq_mapM (args : List (Formula V)) :
    argumentValues model args = args.mapM (value model) := by
  induction args with
  | nil => simp [argumentValues]
  | cons f rest ih => rw [argumentValues, List.mapM_cons, ih]

/-- No argument is looked at behind one without a value. -/
theorem value_app_eq_error {op : Op} {before behind : List (Formula V)} {f : Formula V} {e : Fault}
    (hbefore : ∀ g ∈ before, ∃ c, g.value model = .ok c) (hf : f.value model = .error e) :
    (app op (before ++ f :: behind)).value model = .error e := by
  rw [value, argumentValues_eq_mapM, Result.mapM_eq_error hbefore hf]
  rfl

theorem value_equal {l r : Formula V} {c d : Const} (hl : l.value model = .ok c)
    (hr : r.value model = .ok d) : (app .eq [l, r]).value model = .ok (.bool (c == d)) :=
  value_app (argumentValues_pair hl hr) rfl

theorem value_less {l r : Formula V} {m n : Nat} (hl : l.value model = .ok (.int m))
    (hr : r.value model = .ok (.int n)) :
    (app .lt [l, r]).value model = .ok (.bool (decide (m < n))) :=
  value_app (argumentValues_pair hl hr) rfl

theorem value_sum {l r : Formula V} {m n : Nat} (hl : l.value model = .ok (.int m))
    (hr : r.value model = .ok (.int n)) (h : m + n < Word.bound) :
    (app .add [l, r]).value model = .ok (.int (m + n)) := by
  apply value_app (argumentValues_pair hl hr)
  have hsum : Op.sum [m, n] = .ok (.int (m + n)) := if_pos h
  have hvalue : Op.add.value [.int m, .int n] = Op.sum [m, n] := rfl
  rw [hvalue, hsum]

theorem allTrue_map_bool (bs : List Bool) :
    Op.allTrue (bs.map Const.bool) = .ok (bs.all id) := by
  induction bs with
  | nil => rfl
  | cons b rest ih => simp [Op.allTrue, Const.toBool?, ih]

theorem value_and {args : List (Formula V)} {bs : List Bool}
    (h : argumentValues model args = .ok (bs.map .bool)) :
    (app .and args).value model = .ok (.bool (bs.all id)) := by
  apply value_app h
  have htakes : Op.and.takes (bs.map Const.bool).length = true := by
    simp [Op.takes, Op.minArity, Op.takesFewerThan, Op.maxArity?]
  rw [Op.value, if_pos htakes]
  simp only [allTrue_map_bool, Result.ok_bind]
  rfl

theorem exists_argumentValues {args : List (Formula V)}
    (h : ∀ f ∈ args, f.IsDecided model) :
    ∃ bs : List Bool, argumentValues model args = .ok (bs.map .bool) ∧
      (bs.all id = true ↔ ∀ f ∈ args, f.Holds model) := by
  induction args with
  | nil => exact ⟨[], by simp [argumentValues], by simp⟩
  | cons f rest ih =>
      obtain ⟨b, hb⟩ := h f List.mem_cons_self
      obtain ⟨bs, hbs, hall⟩ := ih fun g hg => h g (List.mem_cons_of_mem f hg)
      refine ⟨b :: bs, by simp [argumentValues, hb, hbs], ?_⟩
      rw [List.forall_mem_cons, ← hall, Holds, hb]
      simp

theorem isDecided_and {args : List (Formula V)} (h : ∀ f ∈ args, f.IsDecided model) :
    (app .and args).IsDecided model := by
  obtain ⟨bs, hbs, -⟩ := exists_argumentValues h
  exact ⟨_, value_and hbs⟩

theorem holds_and_iff {args : List (Formula V)} (h : ∀ f ∈ args, f.IsDecided model) :
    (app .and args).Holds model ↔ ∀ f ∈ args, f.Holds model := by
  obtain ⟨bs, hbs, hall⟩ := exists_argumentValues h
  rw [← hall, Holds, value_and hbs]
  simp

/-! ## Applications that type-check -/

theorem equal_eq_app {l r : Formula V} (h : l.kind = r.kind) :
    equal l r = .ok (app .eq [l, r]) := by
  simp [equal, apply, Op.typing, Op.typing.kinds, Op.minArity, Op.maxArity?, h]

theorem conj_eq_app {args : List (Formula V)} (h : ∀ f ∈ args, f.kind = .bool) :
    conj args = .ok (app .and args) := by
  have hall : (args.map kind).all (· == .bool) = true := by
    simpa using h
  simp only [conj, apply, Op.typing, Op.typing.kinds, Op.minArity, Op.maxArity?, hall]
  simp

theorem negation_eq_app {f : Formula V} (h : f.kind = .bool) :
    apply .not [f] = .ok (app .not [f]) := by
  simp [apply, Op.typing, Op.typing.kinds, Op.minArity, Op.maxArity?, h]

theorem eventually_eq_app {f : Formula V} (h : f.kind = .bool) :
    apply .eventually [f] = .ok (app .eventually [f]) := by
  simp [apply, Op.typing, Op.typing.kinds, Op.minArity, Op.maxArity?, h]

end Formula

end Sokoban
