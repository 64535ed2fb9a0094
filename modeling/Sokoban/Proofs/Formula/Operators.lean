import Mathlib.Data.List.Basic
import Sokoban.Proofs.Formula.Soundness

/-!
# What an operator makes of values

An operator gives a value, rejects its arguments with an issue of its own, or is an addition whose
sum is no word. The three are told here without a look at how `Op.value` proceeds: it looks at the
number of arguments first, then at each argument from the left, and `eventually` is left to runs.
-/

namespace Sokoban

namespace Const

theorem exists_map_int {cs : List Const} (h : ∀ c ∈ cs, c.kind = .int) :
    ∃ ns : List Nat, cs = ns.map int := by
  induction cs with
  | nil => exact ⟨[], rfl⟩
  | cons c rest ih =>
      obtain ⟨n, rfl⟩ := kind_eq_int_iff.1 (h c List.mem_cons_self)
      obtain ⟨ns, rfl⟩ := ih fun d hd => h d (List.mem_cons_of_mem _ hd)
      exact ⟨n :: ns, rfl⟩

end Const

namespace Op

inductive Gives : Op → List Const → Const → Prop
  | add {ns : List Nat} (hcount : 2 ≤ ns.length) (hsum : ns.sum < Word.bound) :
      Gives add (ns.map .int) (.int ns.sum)
  | lt (m n : Nat) : Gives lt [.int m, .int n] (.bool (decide (m < n)))
  | eq (c d : Const) : Gives eq [c, d] (.bool (decide (c = d)))
  | not (b : Bool) : Gives not [.bool b] (.bool !b)
  | and (bs : List Bool) : Gives and (bs.map .bool) (.bool (bs.all id))

/-- What an operator objects to: the number of its arguments, then the first argument that is of
another kind than the operator expects. -/
inductive Rejects : Op → List Const → EvalIssue → Prop
  | arity {op : Op} {cs : List Const} (h : op.takes cs.length = false) :
      Rejects op cs (.arity op cs.length)
  | notInteger {op : Op} {before behind : List Const} {c : Const} (hop : op = add ∨ op = lt)
      (htakes : op.takes (before ++ c :: behind).length = true)
      (hbefore : ∀ d ∈ before, d.kind = .int) (hc : c.kind ≠ .int) :
      Rejects op (before ++ c :: behind) (.notInteger op c)
  | negatesNonBoolean {c : Const} (hc : c.kind ≠ .bool) : Rejects not [c] (.negatesNonBoolean c)
  | joinsNonBoolean {before behind : List Const} {c : Const}
      (hbefore : ∀ d ∈ before, d.kind = .bool) (hc : c.kind ≠ .bool) :
      Rejects and (before ++ c :: behind) (.joinsNonBoolean c)
  | temporal (c : Const) : Rejects eventually [c] (.temporal eventually)

def Overflows (op : Op) (cs : List Const) : Prop :=
  op = add ∧ ∃ ns : List Nat, cs = ns.map .int ∧ 2 ≤ ns.length ∧ Word.bound ≤ ns.sum

variable {op : Op} {cs before behind : List Const} {c : Const} {issue : EvalIssue}

theorem integers_append (hbefore : ∀ d ∈ before, d.kind = .int) (hc : c.kind ≠ .int) :
    integers op (before ++ c :: behind) = Result.fail (.evaluation (.notInteger op c)) := by
  induction before with
  | nil => cases c <;> simp_all [integers, Const.toInt?, Const.kind]
  | cons d rest ih =>
      rw [List.forall_mem_cons] at hbefore
      obtain ⟨n, rfl⟩ := Const.kind_eq_int_iff.1 hbefore.1
      simp [integers, Const.toInt?, ih hbefore.2, Result.fail]

theorem allTrue_append (hbefore : ∀ d ∈ before, d.kind = .bool) (hc : c.kind ≠ .bool) :
    allTrue (before ++ c :: behind) = Result.fail (.evaluation (.joinsNonBoolean c)) := by
  induction before with
  | nil => cases c <;> simp_all [allTrue, Const.toBool?, Const.kind]
  | cons d rest ih =>
      rw [List.forall_mem_cons] at hbefore
      obtain ⟨b, rfl⟩ := Const.kind_eq_bool_iff.1 hbefore.1
      simp [allTrue, Const.toBool?, ih hbefore.2, Result.fail]

theorem takes_and (n : Nat) : and.takes n = true := takes_iff.2 trivial

theorem Gives.value_eq (h : op.Gives cs c) : op.value cs = .ok c := by
  cases h with
  | add hcount hsum => rw [value_add hcount, sum_eq, if_pos hsum]
  | lt m n => rfl
  | eq c d => simp [value, takes, minArity, takesFewerThan, maxArity?, isSame, beq_eq_decide]
  | not b => rfl
  | and bs =>
      rw [value, if_pos (takes_and _)]
      simp [Formula.allTrue_map_bool]

theorem Rejects.value_eq (h : op.Rejects cs issue) :
    op.value cs = Result.fail (.evaluation issue) := by
  cases h with
  | arity h => simp [value, h]
  | notInteger hop htakes hbefore hc =>
      unfold value
      rw [if_pos htakes]
      rcases hop with rfl | rfl <;> simp [integers_append hbefore hc, Result.fail]
  | @negatesNonBoolean c hc =>
      cases c with
      | bool b => exact absurd rfl hc
      | int n => rfl
      | content c => rfl
  | joinsNonBoolean hbefore hc =>
      rw [value, if_pos (takes_and _)]
      simp [allTrue_append hbefore hc, Result.fail]
  | temporal c => rfl

theorem Overflows.value_eq (h : op.Overflows cs) : op.value cs = Result.crash .addOverflow := by
  obtain ⟨rfl, ns, rfl, hcount, hsum⟩ := h
  rw [value_add hcount, sum_eq, if_neg (by omega)]

/-! ## There is no fourth outcome -/

theorem add_cases (h : add.takes cs.length = true) :
    (∃ c, add.Gives cs c) ∨ (∃ issue, add.Rejects cs issue) ∨ add.Overflows cs := by
  by_cases hints : ∀ d ∈ cs, d.kind = .int
  · obtain ⟨ns, rfl⟩ := Const.exists_map_int hints
    have hcount : 2 ≤ ns.length := by simpa using takes_iff.1 h
    rcases Nat.lt_or_ge ns.sum Word.bound with hsum | hsum
    · exact .inl ⟨_, .add hcount hsum⟩
    · exact .inr (.inr ⟨rfl, ns, rfl, hcount, hsum⟩)
  · obtain ⟨before, c, behind, rfl, hbefore, hc⟩ := Result.exists_first hints
    exact .inr (.inl ⟨_, .notInteger (.inl rfl) h hbefore hc⟩)

theorem lt_cases (h : lt.takes cs.length = true) :
    (∃ c, lt.Gives cs c) ∨ ∃ issue, lt.Rejects cs issue := by
  by_cases hints : ∀ d ∈ cs, d.kind = .int
  · obtain ⟨ns, rfl⟩ := Const.exists_map_int hints
    have hcount : ns.length = 2 := by simpa using takes_iff.1 h
    obtain ⟨m, n, rfl⟩ := List.length_eq_two.1 hcount
    exact .inl ⟨_, .lt m n⟩
  · obtain ⟨before, c, behind, rfl, hbefore, hc⟩ := Result.exists_first hints
    exact .inr ⟨_, .notInteger (.inr rfl) h hbefore hc⟩

theorem and_cases (cs : List Const) :
    (∃ c, and.Gives cs c) ∨ ∃ issue, and.Rejects cs issue := by
  by_cases hbools : ∀ d ∈ cs, d.kind = .bool
  · obtain ⟨bs, rfl⟩ := Const.exists_map_bool hbools
    exact .inl ⟨_, .and bs⟩
  · obtain ⟨before, c, behind, rfl, hbefore, hc⟩ := Result.exists_first hbools
    exact .inr ⟨_, .joinsNonBoolean hbefore hc⟩

theorem not_cases (c : Const) : (∃ d, not.Gives [c] d) ∨ ∃ issue, not.Rejects [c] issue := by
  by_cases hbool : c.kind = .bool
  · obtain ⟨b, rfl⟩ := Const.kind_eq_bool_iff.1 hbool
    exact .inl ⟨_, .not b⟩
  · exact .inr ⟨_, .negatesNonBoolean hbool⟩

theorem outcome_cases (op : Op) (cs : List Const) :
    (∃ c, op.Gives cs c) ∨ (∃ issue, op.Rejects cs issue) ∨ op.Overflows cs := by
  by_cases h : op.takes cs.length = true
  · cases op with
    | add => exact add_cases h
    | lt => exact (lt_cases h).imp_right .inl
    | eq =>
        obtain ⟨c, d, rfl⟩ := List.length_eq_two.1 (takes_iff.1 h)
        exact .inl ⟨_, .eq c d⟩
    | not =>
        obtain ⟨c, rfl⟩ := List.length_eq_one_iff.1 (takes_iff.1 h)
        exact (not_cases c).imp_right .inl
    | and => exact (and_cases cs).imp_right .inl
    | eventually =>
        obtain ⟨c, rfl⟩ := List.length_eq_one_iff.1 (takes_iff.1 h)
        exact .inr (.inl ⟨_, .temporal c⟩)
  · exact .inr (.inl ⟨_, .arity (Bool.eq_false_iff.2 h)⟩)

theorem value_eq_ok_iff : op.value cs = .ok c ↔ op.Gives cs c := by
  refine ⟨fun hvalue => ?_, Gives.value_eq⟩
  rcases outcome_cases op cs with ⟨d, hgives⟩ | ⟨issue, hrejects⟩ | hover
  · rw [hgives.value_eq] at hvalue
    cases hvalue
    exact hgives
  · rw [hrejects.value_eq] at hvalue
    cases hvalue
  · rw [hover.value_eq] at hvalue
    cases hvalue

theorem value_eq_error_cases {fault : Fault} (h : op.value cs = .error fault) :
    (∃ issue, op.Rejects cs issue ∧ fault = .of (.evaluation issue)) ∨
      op.Overflows cs ∧ fault = .crash .addOverflow := by
  rcases outcome_cases op cs with ⟨d, hgives⟩ | ⟨issue, hrejects⟩ | hover
  · rw [hgives.value_eq] at h
    cases h
  · rw [hrejects.value_eq] at h
    cases h
    exact .inl ⟨issue, hrejects, rfl⟩
  · rw [hover.value_eq] at h
    cases h
    exact .inr ⟨hover, rfl⟩

/-! ## Arguments by their index -/

def elementAt {α : Type} (l : List α) (i : Nat) : Result α :=
  match l[i]? with
  | some a => .ok a
  | none => Result.crash (.other ("index out of bounds: the len is " ++ toString l.length ++
      " but the index is " ++ toString i))

def valueByIndex (op : Op) (args : List Const) : Result Const :=
  if op.takes args.length then
    match op with
    | .lt => do
      let ns ← integers op args
      return .bool (decide ((← elementAt ns 0) < (← elementAt ns 1)))
    | .eq => do
      return .bool ((← elementAt args 0) == (← elementAt args 1))
    | .not => do
      match ← elementAt args 0 with
      | .bool b => return .bool !b
      | c => Result.fail (.evaluation (.negatesNonBoolean c))
    | .add | .and | .eventually => op.value args
  else Result.fail (.evaluation (.arity op args.length))

/-- Once the number of arguments was checked, no index is out of range. -/
theorem valueByIndex_eq (op : Op) (args : List Const) : op.valueByIndex args = op.value args := by
  unfold valueByIndex
  by_cases h : op.takes args.length = true
  · rw [if_pos h]
    cases op with
    | lt =>
        obtain ⟨c, d, rfl⟩ := List.length_eq_two.1 (takes_iff.1 h)
        cases c <;> cases d <;> rfl
    | eq =>
        obtain ⟨c, d, rfl⟩ := List.length_eq_two.1 (takes_iff.1 h)
        rfl
    | not =>
        obtain ⟨c, rfl⟩ := List.length_eq_one_iff.1 (takes_iff.1 h)
        cases c <;> rfl
    | add | and | eventually => rfl
  · unfold value
    rw [if_neg h, if_neg h]

end Op

end Sokoban
