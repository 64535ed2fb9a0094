import Mathlib.Data.List.Forall2
import Sokoban.Proofs.Formula.Operators

/-!
# Evaluation is strict

Each part of a formula is evaluated before the operator around it is looked at. So one part decides
how evaluation ends: the first, in the order of evaluation, that fails by itself. It may lie as deep
as it likes, its fault comes out unchanged. Only where no part fails there is a value.
-/

namespace Sokoban.Formula

variable {V : Type} {model : V → Option Const} {f x : Formula V} {op : Op}
  {args l m : List (Formula V)} {c : Const} {cs : List Const} {fault : Fault}

theorem induction {P : Formula V → Prop} (const : ∀ c, P (const c)) (var : ∀ v, P (var v))
    (app : ∀ op args, (∀ a ∈ args, P a) → P (app op args)) (f : Formula V) : P f := by
  refine @Formula.rec V P (fun args => ∀ a ∈ args, P a) const var app ?_ ?_ f
  · exact List.forall_mem_nil P
  · exact fun a rest ha hrest => List.forall_mem_cons.2 ⟨ha, hrest⟩

/-! ## Values -/

/-- The formula has a value: every argument has one, and its operator gives one to them. -/
inductive HasValue (model : V → Option Const) : Formula V → Const → Prop
  | const (c : Const) : HasValue model (const c) c
  | var {v : V} {c : Const} (h : model v = some c) : HasValue model (var v) c
  | app {op : Op} {args : List (Formula V)} {cs : List Const} {c : Const}
      (hargs : List.Forall₂ (HasValue model) args cs) (hop : op.Gives cs c) :
      HasValue model (app op args) c

variable [Variable V]

private theorem argumentValues_eq_ok_iff_of
    (h : ∀ a ∈ args, ∀ c, a.value model = .ok c ↔ a.HasValue model c) :
    argumentValues model args = .ok cs ↔ List.Forall₂ (HasValue model) args cs := by
  induction args generalizing cs with
  | nil => cases cs <;> simp [argumentValues]
  | cons a rest ih =>
      rw [List.forall_mem_cons] at h
      rw [argumentValues]
      cases cs with
      | nil => simp [Result.bind_eq_ok]
      | cons d ds => simp [Result.bind_eq_ok, h.1, ih h.2]

theorem value_eq_ok_iff : f.value model = .ok c ↔ f.HasValue model c := by
  induction f using induction generalizing c with
  | const d =>
      rw [value_const]
      constructor
      · intro h
        cases h
        exact .const d
      · intro h
        cases h
        rfl
  | var v =>
      constructor
      · intro h
        rw [value] at h
        split at h
        · cases h
          exact .var ‹_›
        · cases h
      · intro h
        cases h with
        | var h => exact value_var h
  | app op args ih =>
      have hargs : ∀ cs, argumentValues model args = .ok cs ↔
          List.Forall₂ (HasValue model) args cs := fun cs =>
        argumentValues_eq_ok_iff_of fun a ha c => ih a ha
      constructor
      · intro h
        obtain ⟨cs, hcs, hop⟩ := exists_of_value_app h
        exact .app ((hargs cs).1 hcs) (Op.value_eq_ok_iff.1 hop)
      · intro h
        cases h with
        | app h hop => exact value_app ((hargs _).2 h) hop.value_eq

theorem argumentValues_eq_ok_iff :
    argumentValues model args = .ok cs ↔ List.Forall₂ (HasValue model) args cs :=
  argumentValues_eq_ok_iff_of fun _ _ _ => value_eq_ok_iff

/-! ## Faults -/

/-- The formula fails by itself: it is a variable without a value, or all its arguments have values
but its operator gives none to them. -/
inductive Fails (model : V → Option Const) : Formula V → Fault → Prop
  | unknown {v : V} (h : model v = none) :
      Fails model (var v) (.of (.evaluation (.unknownVariable (Variable.name v))))
  | rejects {op : Op} {args : List (Formula V)} {cs : List Const} {issue : EvalIssue}
      (hargs : List.Forall₂ (HasValue model) args cs) (hop : op.Rejects cs issue) :
      Fails model (app op args)
        (.error ⟨.during (.evaluating (app op args).text), [.evaluation issue]⟩)
  | overflows {op : Op} {args : List (Formula V)} {cs : List Const}
      (hargs : List.Forall₂ (HasValue model) args cs) (hop : op.Overflows cs) :
      Fails model (app op args) (.crash .addOverflow)

theorem Fails.value_eq (h : f.Fails model fault) : f.value model = .error fault := by
  cases h with
  | unknown h =>
      rw [value, h]
      rfl
  | rejects hargs hop =>
      rw [value, argumentValues_eq_ok_iff.2 hargs, Result.ok_bind, hop.value_eq]
      rfl
  | overflows hargs hop =>
      rw [value, argumentValues_eq_ok_iff.2 hargs, Result.ok_bind, hop.value_eq]
      rfl

mutual

/-- The parts of a formula in the order of their evaluation: the parts of the arguments, from left
to right, come before the application. -/
def parts : Formula V → List (Formula V)
  | const c => [const c]
  | var v => [var v]
  | app op args => argumentParts args ++ [app op args]

def argumentParts : List (Formula V) → List (Formula V)
  | [] => []
  | f :: rest => parts f ++ argumentParts rest

end

def NoneFails (model : V → Option Const) (l : List (Formula V)) : Prop :=
  ∀ x ∈ l, ∀ fault, ¬ x.Fails model fault

def FirstFails (model : V → Option Const) (l : List (Formula V)) (fault : Fault) : Prop :=
  ∃ before x behind, l = before ++ x :: behind ∧ NoneFails model before ∧ x.Fails model fault

theorem noneFails_append : NoneFails model (l ++ m) ↔ NoneFails model l ∧ NoneFails model m :=
  List.forall_mem_append

theorem not_firstFails_of_noneFails (h : NoneFails model l) : ¬ FirstFails model l fault := by
  rintro ⟨before, x, behind, rfl, -, hx⟩
  exact h x (by simp) fault hx

theorem FirstFails.append (h : FirstFails model l fault) (m : List (Formula V)) :
    FirstFails model (l ++ m) fault := by
  obtain ⟨before, x, behind, rfl, hbefore, hx⟩ := h
  exact ⟨before, x, behind ++ m, by simp, hbefore, hx⟩

theorem FirstFails.prepend (h : FirstFails model m fault) (hl : NoneFails model l) :
    FirstFails model (l ++ m) fault := by
  obtain ⟨before, x, behind, rfl, hbefore, hx⟩ := h
  exact ⟨l ++ before, x, behind, by simp, noneFails_append.2 ⟨hl, hbefore⟩, hx⟩

theorem firstFails_cons_iff : FirstFails model (x :: l) fault ↔
    x.Fails model fault ∨ (∀ other, ¬ x.Fails model other) ∧ FirstFails model l fault := by
  constructor
  · rintro ⟨before, y, behind, h, hbefore, hy⟩
    cases before with
    | nil =>
        obtain ⟨rfl, -⟩ := List.cons.inj h
        exact .inl hy
    | cons z before =>
        obtain ⟨rfl, rfl⟩ := List.cons.inj h
        obtain ⟨hx, hbefore⟩ := List.forall_mem_cons.1 hbefore
        exact .inr ⟨hx, before, y, behind, rfl, hbefore, hy⟩
  · rintro (hx | ⟨hx, h⟩)
    · exact ⟨[], x, l, rfl, List.forall_mem_nil _, hx⟩
    · exact FirstFails.prepend (l := [x]) h (List.forall_mem_singleton.2 hx)

theorem FirstFails.unique {other : Fault} (h : FirstFails model l fault)
    (hother : FirstFails model l other) : fault = other := by
  induction l with
  | nil =>
      obtain ⟨before, x, behind, hnil, -⟩ := h
      simp at hnil
  | cons x rest ih =>
      rw [firstFails_cons_iff] at h hother
      rcases h with hx | ⟨hnone, h⟩
      · rcases hother with hx' | ⟨hnone, -⟩
        · have hvalue := hx.value_eq
          rw [hx'.value_eq] at hvalue
          exact (Except.error.inj hvalue).symm
        · exact absurd hx (hnone fault)
      · rcases hother with hx' | ⟨-, hother⟩
        · exact absurd hx' (hnone other)
        · exact ih h hother

/-! ## How evaluation proceeds -/

/-- A computation is explained by the formulas evaluated in it: it answers if none of them fails by
itself, and otherwise ends with the fault of the first that does. -/
structure Explains {α : Type} (model : V → Option Const) (l : List (Formula V)) (r : Result α) :
    Prop where
  ok : ∀ a, r = .ok a → NoneFails model l
  error : ∀ fault, r = .error fault → FirstFails model l fault

namespace Explains

variable {α β : Type} {r : Result α} {k : α → Result β}

theorem pure (a : α) : Explains model [] (.ok a : Result α) where
  ok _ _ := List.forall_mem_nil _
  error _ h := by cases h

theorem bind (hr : Explains model l r) (hk : ∀ a, r = .ok a → Explains model m (k a)) :
    Explains model (l ++ m) (r >>= k) := by
  cases r with
  | ok a =>
      have hl := hr.ok a rfl
      have hm := hk a rfl
      exact ⟨fun b hb => noneFails_append.2 ⟨hl, hm.ok b hb⟩,
        fun fault hfault => (hm.error fault hfault).prepend hl⟩
  | error e =>
      constructor
      · intro b hb
        cases hb
      · intro fault hfault
        cases hfault
        exact (hr.error e rfl).append m

end Explains

theorem explains_self (h : ∀ fault, f.value model = .error fault → f.Fails model fault) :
    Explains model [f] (f.value model) where
  ok c hc := by
    refine List.forall_mem_singleton.2 fun fault hfails => ?_
    rw [hfails.value_eq] at hc
    cases hc
  error fault hfault := firstFails_cons_iff.2 (.inl (h fault hfault))

/-- Once its arguments have values, an application fails by itself or not at all. -/
theorem explains_application (hargs : argumentValues model args = .ok cs) :
    Explains model [app op args]
      ((op.value cs).mapError fun fault => fault.during (.evaluating (app op args).text)) := by
  have hvalue : (app op args).value model =
      (op.value cs).mapError fun fault => fault.during (.evaluating (app op args).text) := by
    rw [value, hargs, Result.ok_bind]
  rw [← hvalue]
  refine explains_self fun fault hfault => ?_
  rw [hvalue] at hfault
  cases hop : op.value cs with
  | ok c =>
      rw [hop] at hfault
      cases hfault
  | error e =>
      rw [hop] at hfault
      cases hfault
      rcases Op.value_eq_error_cases hop with ⟨issue, hrejects, rfl⟩ | ⟨hover, rfl⟩
      · exact .rejects (argumentValues_eq_ok_iff.1 hargs) hrejects
      · exact .overflows (argumentValues_eq_ok_iff.1 hargs) hover

theorem explains_argumentValues (h : ∀ a ∈ args, Explains model a.parts (a.value model)) :
    Explains model (argumentParts args) (argumentValues model args) := by
  induction args with
  | nil =>
      rw [argumentParts, argumentValues]
      exact .pure []
  | cons a rest ih =>
      rw [List.forall_mem_cons] at h
      rw [argumentParts, argumentValues]
      refine h.1.bind fun c _ => ?_
      have hrest := (ih h.2).bind (k := fun more => .ok (c :: more)) fun more _ => .pure (c :: more)
      rwa [List.append_nil] at hrest

/-- The parts of a formula explain how its evaluation ends. -/
theorem explains_value (f : Formula V) : Explains model f.parts (f.value model) := by
  induction f using induction with
  | const c =>
      refine explains_self fun fault hfault => ?_
      rw [value_const] at hfault
      cases hfault
  | var v =>
      refine explains_self fun fault hfault => ?_
      rw [value] at hfault
      split at hfault
      · cases hfault
      · cases hfault
        exact .unknown ‹_›
  | app op args ih =>
      rw [parts, value]
      exact (explains_argumentValues ih).bind fun cs hcs => explains_application hcs

omit [Variable V] in
theorem mem_argumentParts_iff : x ∈ argumentParts args ↔ ∃ a ∈ args, x ∈ a.parts := by
  induction args with
  | nil => simp [argumentParts]
  | cons a rest ih => simp [argumentParts, ih]

omit [Variable V] in
theorem mem_parts_iff : x ∈ f.parts ↔ x.PartOf f := by
  induction f using induction with
  | const c => simp [parts]
  | var v => simp [parts]
  | app op args ih =>
      rw [parts, List.mem_append, mem_argumentParts_iff, List.mem_singleton, partOf_app_iff,
        or_comm]
      refine or_congr_right (exists_congr fun a => and_congr_right fun ha => ih a ha)

structure EvaluatesStrictly (model : V → Option Const) (f : Formula V) : Prop where
  value : ∀ c, f.value model = .ok c ↔ f.HasValue model c
  ok_iff : (∃ c, f.value model = .ok c) ↔ NoneFails model f.parts
  error_iff : ∀ fault, f.value model = .error fault ↔ FirstFails model f.parts fault
  /-- Where the whole has a value, every part has one. -/
  part : ∀ c, f.value model = .ok c →
    ∀ x : Formula V, x.PartOf f → ∃ d, x.value model = .ok d
  /-- No crash but that of a sum. -/
  crash : ∀ c, f.value model = Result.crash c → c = .addOverflow ∧
    ∃ op args cs, (app op args).PartOf f ∧ List.Forall₂ (HasValue model) args cs ∧
      op.Overflows cs
  /-- A variable's error stands alone, and an operator's has one line of context. -/
  chain : ∀ e, f.value model = .error (.error e) →
    (∃ v, (var v).PartOf f ∧ model v = none ∧
      e.chain.map Issue.message = ["no value for variable " ++ quoted (Variable.name v)]) ∨
    ∃ op args cs issue, (app op args).PartOf f ∧ List.Forall₂ (HasValue model) args cs ∧
      op.Rejects cs issue ∧ e.chain.map Issue.message =
        ["while evaluating " ++ quoted (app op args).text, issue.message]

/-- The evaluation of any formula, well-typed or not, is decided by the first of its parts that
fails by itself; and no operator looks for an argument that is not there. -/
theorem evaluatesStrictly (model : V → Option Const) (f : Formula V) :
    f.EvaluatesStrictly model ∧
      ∀ (op : Op) (cs : List Const), op.valueByIndex cs = op.value cs := by
  have hexplains : Explains model f.parts (f.value model) := explains_value f
  have hfirst : ∀ {fault}, f.value model = .error fault →
      ∃ x : Formula V, x.PartOf f ∧ x.Fails model fault := by
    intro fault h
    obtain ⟨before, x, behind, hparts, -, hx⟩ := hexplains.error fault h
    exact ⟨x, mem_parts_iff.1 (by rw [hparts]; simp), hx⟩
  refine ⟨?_, Op.valueByIndex_eq⟩
  constructor
  case value => exact fun c => value_eq_ok_iff
  case ok_iff =>
    refine ⟨fun ⟨c, hc⟩ => hexplains.ok c hc, fun hnone => ?_⟩
    cases hvalue : f.value model with
    | ok c => exact ⟨c, rfl⟩
    | error fault =>
        exact absurd (hexplains.error fault hvalue) (not_firstFails_of_noneFails hnone)
  case error_iff =>
    refine fun fault => ⟨hexplains.error fault, fun hfails => ?_⟩
    cases hvalue : f.value model with
    | ok c => exact absurd hfails (not_firstFails_of_noneFails (hexplains.ok c hvalue))
    | error other => rw [(hexplains.error other hvalue).unique hfails]
  case part => exact fun c hc x hx => hx.exists_value hc
  case crash =>
    intro c hc
    obtain ⟨x, hx, hfails⟩ := hfirst hc
    cases hfails with
    | overflows hargs hop => exact ⟨rfl, _, _, _, hx, hargs, hop⟩
  case chain =>
    intro e he
    obtain ⟨x, hx, hfails⟩ := hfirst he
    cases hfails with
    | unknown h => exact .inl ⟨_, hx, h, rfl⟩
    | rejects hargs hop => exact .inr ⟨_, _, _, _, hx, hargs, hop, rfl⟩

-- a conjunct that is false does not hide the unknown variable behind it
example (v : V) : (app .and [const (.bool false), var v]).value (fun _ => none) =
    Result.fail (.evaluation (.unknownVariable (Variable.name v))) := rfl

end Sokoban.Formula
