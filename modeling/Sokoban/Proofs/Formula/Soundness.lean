import Mathlib.Algebra.GroupWithZero.Nat
import Sokoban.Model.State
import Sokoban.Proofs.Formula.Truth
import Sokoban.Proofs.Formula.WellTyped

/-!
# Well-typed formulas evaluate

Where each variable has a value of its kind, a well-typed formula about one state has a value, and
the value is of the formula's kind. The only escape is a sum that does not fit into a word. Whether
there is one is said by `Overflows` in whole numbers, without a look at how evaluation proceeds.
-/

namespace Sokoban

namespace Const

theorem exists_map_bool {cs : List Const} (h : ∀ c ∈ cs, c.kind = .bool) :
    ∃ bs : List Bool, cs = bs.map bool := by
  induction cs with
  | nil => exact ⟨[], rfl⟩
  | cons c rest ih =>
      obtain ⟨b, rfl⟩ := kind_eq_bool_iff.1 (h c List.mem_cons_self)
      obtain ⟨bs, rfl⟩ := ih fun d hd => h d (List.mem_cons_of_mem _ hd)
      exact ⟨b :: bs, rfl⟩

end Const

/-! ## One operator -/

namespace Op

theorem integers_map_int (op : Op) (ns : List Nat) :
    integers op (ns.map Const.int) = .ok ns := by
  induction ns with
  | nil => rfl
  | cons n rest ih => simp [integers, Const.toInt?, ih]

theorem sum_eq (ns : List Nat) :
    sum ns = if ns.sum < Word.bound then .ok (.int ns.sum) else Result.crash .addOverflow := rfl

theorem value_add {ns : List Nat} (h : 2 ≤ ns.length) : add.value (ns.map .int) = sum ns := by
  have htakes : add.takes (ns.map Const.int).length = true := by
    simpa [takes_iff] using h
  rw [value, if_pos htakes]
  simp [integers_map_int]

/-- What `apply` accepts is what evaluation expects, sums and `F` aside. -/
theorem exists_value {op : Op} {cs : List Const} (h : op.Accepts (cs.map Const.kind))
    (hadd : op ≠ .add) (heventually : op ≠ .eventually) :
    ∃ c, op.value cs = .ok c ∧ c.kind = op.kind := by
  have htakes : op.takes cs.length = true := by
    simpa using takes_of_accepts h
  cases op with
  | add => exact absurd rfl hadd
  | eventually => exact absurd rfl heventually
  | lt =>
      obtain ⟨c, _, rfl, hc, hrest⟩ := List.map_eq_cons_iff.1 h
      obtain ⟨d, rfl, hd⟩ := List.map_eq_singleton_iff.1 hrest
      obtain ⟨m, rfl⟩ := Const.kind_eq_int_iff.1 hc
      obtain ⟨n, rfl⟩ := Const.kind_eq_int_iff.1 hd
      exact ⟨.bool (decide (m < n)), rfl, rfl⟩
  | eq => exact ⟨.bool (isSame cs), by simp [value, htakes], rfl⟩
  | not =>
      obtain ⟨c, rfl, hc⟩ := List.map_eq_singleton_iff.1 h
      obtain ⟨b, rfl⟩ := Const.kind_eq_bool_iff.1 hc
      exact ⟨.bool !b, rfl, rfl⟩
  | and =>
      obtain ⟨bs, rfl⟩ := Const.exists_map_bool (by simpa [Accepts] using h)
      refine ⟨.bool (bs.all id), ?_, rfl⟩
      rw [value, if_pos htakes]
      simp [Formula.allTrue_map_bool]

theorem value_eventually_ne_ok (cs : List Const) (c : Const) : eventually.value cs ≠ .ok c := by
  unfold value
  split <;> simp [Result.fail]

end Op

namespace Formula

variable {V : Type} {model : V → Option Const} {f : Formula V} {op : Op} {args : List (Formula V)}

/-! ## Sums in whole numbers -/

/-- The number that a formula stands for, reckoned without a bound. What is no number counts as
zero. -/
def exact (model : V → Option Const) : Formula V → Nat
  | const c => c.toInt?.getD 0
  | var v => ((model v).bind Const.toInt?).getD 0
  | app .add args => (args.map (exact model)).sum
  | app _ _ => 0

/-- Some addition in the formula comes to a number that is no word. -/
def Overflows (model : V → Option Const) (f : Formula V) : Prop :=
  ∃ args, (app .add args).PartOf f ∧ Word.bound ≤ (args.map (exact model)).sum

/-- The formula speaks of the run, not only of a state of it. -/
def IsTemporal (f : Formula V) : Prop := ∃ args, (app .eventually args).PartOf f

theorem overflows_app_iff :
    (app op args).Overflows model ↔
      (op = .add ∧ Word.bound ≤ (args.map (exact model)).sum) ∨
        ∃ a ∈ args, a.Overflows model := by
  simp only [Overflows, partOf_app_iff, app.injEq]
  grind

theorem isTemporal_app_iff :
    (app op args).IsTemporal ↔ op = .eventually ∨ ∃ a ∈ args, a.IsTemporal := by
  simp only [IsTemporal, partOf_app_iff, app.injEq]
  grind

theorem not_overflows_const (c : Const) : ¬ (const c : Formula V).Overflows model := by
  simp [Overflows]

theorem not_overflows_var (v : V) : ¬ (var v).Overflows model := by
  simp [Overflows]

variable [Variable V]

/-- Each variable of the formula has a value of the variable's kind. -/
def Assigns (model : V → Option Const) (f : Formula V) : Prop :=
  ∀ v, (var v).PartOf f → ∃ c, model v = some c ∧ c.kind = Variable.kind v

theorem Assigns.arg (h : Assigns model (app op args)) {a : Formula V} (ha : a ∈ args) :
    Assigns model a :=
  fun v hv => h v (.arg ha hv)

/-! ## Evaluation -/

/-- A formula without overflow has a value of its kind, and a number is the exact one; one with an
overflow crashes. -/
structure Evaluates (model : V → Option Const) (f : Formula V) : Prop where
  value : ¬ f.Overflows model →
    ∃ c, f.value model = .ok c ∧ c.kind = f.kind ∧ (f.kind = .int → c = .int (f.exact model))
  crash : f.Overflows model → f.value model = Result.crash .addOverflow

theorem evaluates_const (c : Const) : (const c : Formula V).Evaluates model where
  value _ := by
    refine ⟨c, value_const c, rfl, fun h => ?_⟩
    obtain ⟨n, rfl⟩ := Const.kind_eq_int_iff.1 h
    simp [exact, Const.toInt?]
  crash h := absurd h (not_overflows_const c)

theorem evaluates_var {v : V} (h : Assigns model (var v)) : (var v).Evaluates model where
  value _ := by
    obtain ⟨c, hc, hkind⟩ := h v (.refl _)
    refine ⟨c, value_var hc, hkind, fun hint => ?_⟩
    obtain ⟨n, rfl⟩ := Const.kind_eq_int_iff.1 (hkind.trans hint)
    simp [exact, hc, Const.toInt?]
  crash h := absurd h (not_overflows_var v)

theorem exists_argumentValues_of_evaluates (h : ∀ a ∈ args, a.Evaluates model)
    (hfits : ∀ a ∈ args, ¬ a.Overflows model) :
    ∃ cs, argumentValues model args = .ok cs ∧ cs.map Const.kind = args.map kind ∧
      ((∀ a ∈ args, a.kind = .int) → cs = (args.map (exact model)).map .int) := by
  induction args with
  | nil => exact ⟨[], by simp [argumentValues], rfl, fun _ => rfl⟩
  | cons a rest ih =>
      simp only [List.forall_mem_cons] at h hfits
      obtain ⟨c, hc, hkind, hint⟩ := h.1.value hfits.1
      obtain ⟨cs, hcs, hkinds, hints⟩ := ih h.2 hfits.2
      refine ⟨c :: cs, by simp [argumentValues, hc, hcs], by simp [hkind, hkinds], fun hall => ?_⟩
      simp only [List.forall_mem_cons] at hall
      simp [hint hall.1, hints hall.2]

/-- The arguments before the first one with an overflow have values, so its crash is reached. -/
theorem argumentValues_eq_crash (h : ∀ a ∈ args, a.Evaluates model)
    (hover : ∃ a ∈ args, a.Overflows model) :
    argumentValues model args = Result.crash .addOverflow := by
  induction args with
  | nil => simp at hover
  | cons a rest ih =>
      simp only [List.forall_mem_cons] at h
      by_cases ha : a.Overflows model
      · simp [argumentValues, h.1.crash ha, Result.crash]
      · obtain ⟨c, hc, -⟩ := h.1.value ha
        have hrest : ∃ a ∈ rest, a.Overflows model := by
          simpa [ha] using hover
        simp [argumentValues, hc, ih h.2 hrest, Result.crash]

theorem evaluates_of_overflow (hargs : ∀ a ∈ args, a.Evaluates model)
    (hover : ∃ a ∈ args, a.Overflows model) : (app op args).Evaluates model where
  value h := absurd (overflows_app_iff.2 (.inr hover)) h
  crash _ := by
    rw [value, argumentValues_eq_crash hargs hover]
    rfl

theorem evaluates_add (hargs : ∀ a ∈ args, a.Evaluates model)
    (hop : Op.add.Accepts (args.map kind)) (hfits : ∀ a ∈ args, ¬ a.Overflows model) :
    (app .add args).Evaluates model := by
  simp only [Op.Accepts, List.length_map, List.forall_mem_map] at hop
  obtain ⟨cs, hcs, -, hints⟩ := exists_argumentValues_of_evaluates hargs hfits
  obtain rfl := hints hop.2
  have hsum : Op.add.value ((args.map (exact model)).map .int) =
      Op.sum (args.map (exact model)) := Op.value_add (by simpa using hop.1)
  have hiff : (app .add args).Overflows model ↔
      Word.bound ≤ (args.map (exact model)).sum := by
    simp only [overflows_app_iff]
    grind
  constructor
  · intro h
    rw [hiff, Nat.not_le] at h
    refine ⟨.int ((app .add args).exact model), value_app hcs ?_, rfl, fun _ => rfl⟩
    rw [hsum, Op.sum_eq, if_pos h, exact]
  · intro h
    rw [hiff, ← Nat.not_lt] at h
    rw [value, hcs, Result.ok_bind, hsum, Op.sum_eq, if_neg h]
    rfl

theorem evaluates_app (hadd : op ≠ .add) (heventually : op ≠ .eventually)
    (hargs : ∀ a ∈ args, a.Evaluates model) (hop : op.Accepts (args.map kind))
    (hfits : ∀ a ∈ args, ¬ a.Overflows model) : (app op args).Evaluates model := by
  obtain ⟨cs, hcs, hkinds, -⟩ := exists_argumentValues_of_evaluates hargs hfits
  obtain ⟨c, hc, hkind⟩ := Op.exists_value (hkinds ▸ hop) hadd heventually
  have hnot : ¬ (app op args).Overflows model := by
    simp only [overflows_app_iff]
    grind
  refine ⟨fun _ => ⟨c, value_app hcs hc, hkind, fun hint => ?_⟩, fun h => absurd h hnot⟩
  -- only sums are numbers
  cases op <;> simp_all [kind, Op.kind]

theorem WellTyped.evaluates (h : f.WellTyped) (hstate : ¬ f.IsTemporal) (hm : Assigns model f) :
    f.Evaluates model := by
  induction h with
  | const c => exact evaluates_const c
  | var v => exact evaluates_var hm
  | @app op args f _ happly ih =>
      obtain ⟨hop, rfl⟩ := apply_eq_ok_iff.1 happly
      rw [isTemporal_app_iff, not_or] at hstate
      have hargs : ∀ a ∈ args, a.Evaluates model := fun a ha =>
        ih a ha (fun h => hstate.2 ⟨a, ha, h⟩) (hm.arg ha)
      by_cases hover : ∃ a ∈ args, a.Overflows model
      · exact evaluates_of_overflow hargs hover
      · have hfits : ∀ a ∈ args, ¬ a.Overflows model := fun a ha h => hover ⟨a, ha, h⟩
        by_cases hadd : op = .add
        · subst hadd
          exact evaluates_add hargs hop hfits
        · exact evaluates_app hadd hstate.1 hargs hop hfits

/-! ## Formulas that speak of the run -/

theorem exists_value_of_mem {cs : List Const} (h : argumentValues model args = .ok cs)
    {a : Formula V} (ha : a ∈ args) : ∃ c, a.value model = .ok c := by
  induction args generalizing cs with
  | nil => simp at ha
  | cons b rest ih =>
      rw [argumentValues] at h
      obtain ⟨c, hc, h⟩ := Result.bind_eq_ok.1 h
      obtain ⟨more, hmore, -⟩ := Result.bind_eq_ok.1 h
      rcases List.mem_cons.1 ha with rfl | ha
      · exact ⟨c, hc⟩
      · exact ih hmore ha

theorem exists_of_value_app {c : Const} (h : (app op args).value model = .ok c) :
    ∃ cs, argumentValues model args = .ok cs ∧ op.value cs = .ok c := by
  rw [value] at h
  obtain ⟨cs, hcs, h⟩ := Result.bind_eq_ok.1 h
  cases hop : op.value cs with
  | ok d => exact ⟨cs, hcs, by simpa [hop] using h⟩
  | error e => simp [hop] at h

/-- Evaluation is strict: where a part has no value, the whole has none. -/
theorem PartOf.exists_value {g : Formula V} (h : g.PartOf f) {c : Const}
    (hf : f.value model = .ok c) : ∃ d, g.value model = .ok d := by
  induction h generalizing c with
  | refl => exact ⟨c, hf⟩
  | arg ha _ ih =>
      obtain ⟨cs, hcs, -⟩ := exists_of_value_app hf
      obtain ⟨d, hd⟩ := exists_value_of_mem hcs ha
      exact ih hd

theorem IsTemporal.value_ne_ok (h : f.IsTemporal) (c : Const) : f.value model ≠ .ok c := by
  obtain ⟨args, hargs⟩ := h
  intro hf
  obtain ⟨d, hd⟩ := hargs.exists_value hf
  obtain ⟨cs, -, hcs⟩ := exists_of_value_app hd
  exact Op.value_eventually_ne_ok cs d hcs

/-- A well-typed formula about one state has a value of its kind, unless a sum in it is no word, and
then evaluation ends with that; a formula that speaks of the run has no value. -/
theorem value_of_wellTyped (h : f.WellTyped) (hm : Assigns model f) :
    (¬ f.IsTemporal →
      (¬ f.Overflows model → ∃ c, f.value model = .ok c ∧ c.kind = f.kind) ∧
      (f.Overflows model → f.value model = Result.crash .addOverflow)) ∧
    (f.IsTemporal → ∀ c, f.value model ≠ .ok c) := by
  refine ⟨fun hstate => ⟨fun hfits => ?_, (h.evaluates hstate hm).crash⟩,
    fun htemporal => htemporal.value_ne_ok⟩
  obtain ⟨c, hc, hkind, -⟩ := (h.evaluates hstate hm).value hfits
  exact ⟨c, hc, hkind⟩

/-- What is added to the largest word must be zero. -/
theorem value_of_wellTyped_of_steps :
    ∃ (f : StateFormula) (s t : State), f.WellTyped ∧ ¬ f.IsTemporal ∧
      (Assigns s.value? f ∧ ¬ f.Overflows s.value? ∧
        ∃ c, f.value s.value? = .ok c ∧ c.kind = f.kind) ∧
      (Assigns t.value? f ∧ f.Overflows t.value? ∧
        f.value t.value? = Result.crash .addOverflow) := by
  let sum : StateFormula := app .add [var .steps, const (.int 0xffffffffffffffff)]
  let f : StateFormula := app .lt [sum, const (.int 60)]
  have hsum : sum.WellTyped := wellTyped_app_iff.2 ⟨by simp [WellTyped.const, WellTyped.var], by
    simp [Op.Accepts, kind, Const.kind, Variable.kind, Var.kind]⟩
  have hf : f.WellTyped := wellTyped_app_iff.2 ⟨by simp [WellTyped.const, hsum], rfl⟩
  have hstate : ¬ f.IsTemporal := by
    simp [f, sum, IsTemporal, partOf_app_iff]
  have hm : ∀ n, Assigns (State.value? ⟨.empty, n⟩) f := by
    intro n v hv
    simp [f, sum, partOf_app_iff] at hv
    exact ⟨.int n, by rw [hv]; rfl, by rw [hv]; rfl⟩
  have hover : ∀ n, f.Overflows (State.value? ⟨.empty, n⟩) ↔
      Word.bound ≤ n + 0xffffffffffffffff := by
    intro n
    simp [f, sum, overflows_app_iff, not_overflows_const, not_overflows_var, exact, State.value?,
      Const.toInt?]
  have hfits : ¬ f.Overflows (State.value? ⟨.empty, 0⟩) := by
    rw [hover]
    decide
  have hcrash : f.Overflows (State.value? ⟨.empty, 1⟩) := by
    rw [hover]
    decide
  exact ⟨f, ⟨.empty, 0⟩, ⟨.empty, 1⟩, hf, hstate,
    ⟨hm 0, hfits, ((value_of_wellTyped hf (hm 0)).1 hstate).1 hfits⟩,
    ⟨hm 1, hcrash, ((value_of_wellTyped hf (hm 1)).1 hstate).2 hcrash⟩⟩

end Formula

end Sokoban
