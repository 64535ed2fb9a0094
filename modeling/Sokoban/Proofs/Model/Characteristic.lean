import Sokoban.Proofs.Model.Meaning

/-!
# The formula of a state tells it from all others

The formula of a state is true where its cells and its steps are found again, and false in any other
state that has these cells. In a state without some of them it has no value: evaluation ends at the
first cell that is missing, whatever the other cells hold. In the same way the first cell outside of
the scope is named when there is no formula.
-/

namespace Sokoban

/-- Of the members of a set that have a property the first, in row-major order. -/
def PosSet.IsFirst (s : PosSet) (P : Pos → Prop) (p : Pos) : Prop :=
  p ∈ s ∧ P p ∧ ∀ q ∈ s, q < p → ¬ P q

/-- Entries are listed in row-major order, so the first of them without a property of its key has
the first of these keys. -/
theorem PosMap.exists_isFirst {α : Type} {m : PosMap α} {P : Pos → Prop}
    (h : ¬ ∀ p ∈ m.keys, P p) : ∃ before p a behind, m.entries = before ++ (p, a) :: behind ∧
      (∀ e ∈ before, P e.1) ∧ m.keys.IsFirst (fun q => ¬ P q) p := by
  have hentries : ¬ ∀ e ∈ m.entries, P e.1 := fun hall => h (List.forall_mem_map.2 hall)
  obtain ⟨before, ⟨p, a⟩, behind, hsplit, hbefore, hp⟩ := Result.exists_first hentries
  have hsorted := m.sorted
  rw [hsplit, List.pairwise_append, List.pairwise_cons] at hsorted
  refine ⟨before, p, a, behind, hsplit, hbefore, ?_, hp, fun q hq hlt => ?_⟩
  · exact List.mem_map.2 ⟨(p, a), by rw [hsplit]; simp, rfl⟩
  · obtain ⟨e, he, rfl⟩ := List.mem_map.1 hq
    rw [hsplit, List.mem_append, List.mem_cons] at he
    rcases he with he | rfl | he
    · exact not_not_intro (hbefore e he)
    · exact absurd hlt (Pos.lt_irrefl _)
    · exact absurd (Pos.lt_trans hlt (hsorted.2.1.1 e he)) (Pos.lt_irrefl _)

open Formula

namespace State

variable {s t : State} {scope : Scope} {f : StateFormula}

theorem exists_formula_eq_fail (h : ¬ ∀ p ∈ s.cells.keys, p ∈ scope.cells) :
    ∃ p, s.cells.keys.IsFirst (fun q => q ∉ scope.cells) p ∧
      s.formula scope = Result.fail (.model (.undeclaredStart p)) := by
  obtain ⟨before, p, c, behind, hentries, hbefore, hp⟩ := PosMap.exists_isFirst h
  refine ⟨p, hp, ?_⟩
  have hcells : s.cells.entries.mapM (fun e => scope.holding .undeclaredStart e.1 e.2) =
      Result.fail (.model (.undeclaredStart p)) := by
    rw [hentries]
    exact Result.mapM_eq_error (fun e he => ⟨_, Scope.holding_of_mem (hbefore e he) _ _⟩)
      (Scope.holding_of_not_mem hp.2.1 _ _)
  unfold formula
  rw [hcells]
  rfl

theorem declared_of_formula (h : s.formula scope = .ok f) :
    ∀ p ∈ s.cells.keys, p ∈ scope.cells := by
  refine Classical.byContradiction fun hcells => ?_
  obtain ⟨p, -, hfail⟩ := exists_formula_eq_fail hcells
  rw [hfail] at h
  cases h

theorem value_cellIs_eq_fail {p : Pos} (h : p ∉ t.cells.keys) (c : Content) :
    (cellIs p c).value t.value? =
      Result.fail (.evaluation (.unknownVariable (Var.cell p).name)) := by
  have hget : t.get? p = none := by
    cases hp : t.get? p with
    | none => rfl
    | some d => exact absurd (mem_keys_iff.2 ⟨d, hp⟩) h
  have hvar : (var (Var.cell p)).value t.value? =
      Result.fail (.evaluation (.unknownVariable (Var.cell p).name)) := by
    rw [value, value?, hget]
    rfl
  exact value_app_eq_error (List.forall_mem_nil (∃ d, value t.value? · = .ok d)) hvar

theorem exists_value_eq_fail (hf : s.formula scope = .ok f)
    (h : ¬ ∀ p ∈ s.cells.keys, p ∈ t.cells.keys) :
    ∃ p, s.cells.keys.IsFirst (fun q => q ∉ t.cells.keys) p ∧
      f.value t.value? = Result.fail (.evaluation (.unknownVariable (Var.cell p).name)) := by
  obtain ⟨before, p, c, behind, hentries, hbefore, hp⟩ := PosMap.exists_isFirst h
  refine ⟨p, hp, ?_⟩
  rw [formula_eq (declared_of_formula hf), hentries] at hf
  obtain rfl := Except.ok.inj hf
  rw [List.map_append, List.map_cons, List.append_assoc, List.cons_append]
  refine value_app_eq_error (List.forall_mem_map.2 fun e he => ?_)
    (value_cellIs_eq_fail hp.2.1 c)
  obtain ⟨d, hd⟩ := mem_keys_iff.1 (hbefore e he)
  obtain ⟨b, hb⟩ := isDecided_cellIs hd e.2
  exact ⟨_, hb⟩

def Matches (t s : State) : Prop :=
  t.steps = s.steps ∧ ∀ p ∈ s.cells.keys, t.get? p = s.get? p

theorem Matches.mem_keys (h : t.Matches s) : ∀ p ∈ s.cells.keys, p ∈ t.cells.keys := by
  intro p hp
  obtain ⟨c, hc⟩ := mem_keys_iff.1 hp
  exact mem_keys_iff.2 ⟨c, (h.2 p hp).trans hc⟩

theorem holds_iff_matches (hf : s.formula scope = .ok f)
    (h : ∀ p ∈ s.cells.keys, p ∈ t.cells.keys) :
    f.IsDecided t.value? ∧ (f.Holds t.value? ↔ t.Matches s) := by
  obtain ⟨g, hg, hdecided, hholds⟩ := exists_formula (declared_of_formula hf) h
  rw [hf] at hg
  obtain rfl := Except.ok.inj hg
  refine ⟨hdecided, hholds.trans (and_congr_right fun _ => ⟨fun hcells p hp => ?_, ?_⟩)⟩
  · obtain ⟨c, hc⟩ := mem_keys_iff.1 hp
    rw [hc, hcells p c hc]
  · intro hcells p c hc
    rw [hcells p (mem_keys_iff.2 ⟨c, hc⟩), hc]

structure Characterized (s : State) (scope : Scope) : Prop where
  ok_iff : (∃ f, s.formula scope = .ok f) ↔ ∀ p ∈ s.cells.keys, p ∈ scope.cells
  undeclared : (¬ ∀ p ∈ s.cells.keys, p ∈ scope.cells) →
    ∃ p, s.cells.keys.IsFirst (fun q => q ∉ scope.cells) p ∧
      s.formula scope = Result.fail (.model (.undeclaredStart p)) ∧
      (ModelIssue.undeclaredStart p).message = "initial cell " ++ p.text ++ " is not declared"
  value_true : ∀ f (t : State), s.formula scope = .ok f → t.Matches s →
    f.value t.value? = .ok (.bool true)
  value_false : ∀ f (t : State), s.formula scope = .ok f → (∀ p ∈ s.cells.keys, p ∈ t.cells.keys) →
    ¬ t.Matches s → f.value t.value? = .ok (.bool false)
  missing : ∀ f (t : State), s.formula scope = .ok f → (¬ ∀ p ∈ s.cells.keys, p ∈ t.cells.keys) →
    ∃ p, s.cells.keys.IsFirst (fun q => q ∉ t.cells.keys) p ∧
      f.value t.value? = Result.fail (.evaluation (.unknownVariable (Var.cell p).name)) ∧
      (EvalIssue.unknownVariable (Var.cell p).name).message =
        "no value for variable " ++ quoted (Var.cell p).name

/-- The formula of any state, over any scope, is true of the states that match it, false of the
others that have its cells, and without a value in the rest. -/
theorem characterized (s : State) (scope : Scope) : s.Characterized scope := by
  constructor
  case ok_iff =>
    exact ⟨fun ⟨f, hf⟩ => declared_of_formula hf, fun h => ⟨_, formula_eq h⟩⟩
  case undeclared =>
    intro h
    obtain ⟨p, hp, hfail⟩ := exists_formula_eq_fail h
    exact ⟨p, hp, hfail, rfl⟩
  case value_true =>
    exact fun f t hf hmatches => (holds_iff_matches hf hmatches.mem_keys).2.2 hmatches
  case value_false =>
    intro f t hf h hmatches
    obtain ⟨⟨b, hb⟩, hholds⟩ := holds_iff_matches hf h
    cases b with
    | true => exact absurd (hholds.1 hb) hmatches
    | false => exact hb
  case missing =>
    intro f t hf h
    obtain ⟨p, hp, hfail⟩ := exists_value_eq_fail hf h
    exact ⟨p, hp, hfail, rfl⟩

end State

end Sokoban
