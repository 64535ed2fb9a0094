import Sokoban.Model.System
import Sokoban.Proofs.Formula.Truth
import Sokoban.Proofs.Model.Firing

/-!
# What the formulas of a model say

Each formula of a model is a conjunction of a few kinds of equations. Here are these conjunctions,
written out, and what they say of a state, or of a state and the state after it.
-/

namespace Sokoban

namespace Formula

/-! ## Equations about a state, and about a step -/

def cellIs (p : Pos) (c : Content) : StateFormula :=
  .app .eq [.var (.cell p), .const (.content c)]

def stepsAre (n : Nat) : StateFormula := .app .eq [.var .steps, .const (.int n)]

def stepsBelow (n : Nat) : StateFormula := .app .lt [.var .steps, .const (.int n)]

def becomes (p : Pos) (c : Content) : StepFormula :=
  .app .eq [.var (.after (.cell p)), .const (.content c)]

def counts : StepFormula :=
  .app .eq [.var (.after .steps), .app .add [.var (.current .steps), .const (.int 1)]]

def stays (v : Var) : StepFormula := .app .eq [.var (.after v), .var (.current v)]

end Formula

open Formula

/-! ## The formulas written out -/

theorem Scope.find?_of_mem {scope : Scope} {p : Pos} (h : p ∈ scope.cells) :
    scope.find? p = some (.cell p) := if_pos h

theorem Scope.holding_of_mem {scope : Scope} {p : Pos} (h : p ∈ scope.cells)
    (issue : Pos → ModelIssue) (c : Content) : scope.holding issue p c = .ok (cellIs p c) := by
  rw [Scope.holding, find?_of_mem h]
  exact equal_eq_app rfl

theorem Scope.holding_of_not_mem {scope : Scope} {p : Pos} (h : p ∉ scope.cells)
    (issue : Pos → ModelIssue) (c : Content) :
    scope.holding issue p c = Result.fail (.model (issue p)) := by
  have hfind : scope.find? p = none := if_neg h
  rw [Scope.holding, hfind]

theorem Scope.cellVariable_of_mem {scope : Scope} {p : Pos} (h : p ∈ scope.cells) :
    scope.cellVariable p = .ok (.cell p) := by
  rw [Scope.cellVariable, find?_of_mem h]

theorem Var.unchanged_eq (v : Var) : v.unchanged = .ok (stays v) := equal_eq_app rfl

theorem Rule.countsStep_eq : Rule.countsStep = .ok counts := rfl

theorem State.formula_eq {s : State} {scope : Scope} (h : ∀ p ∈ s.cells.keys, p ∈ scope.cells) :
    s.formula scope =
      .ok (.app .and (s.cells.entries.map (fun e => cellIs e.1 e.2) ++ [stepsAre s.steps])) := by
  have hcells : ∀ e ∈ s.cells.entries,
      scope.holding .undeclaredStart e.1 e.2 = .ok (cellIs e.1 e.2) := by
    intro e he
    have hmem : e.1 ∈ s.cells.keys := State.mem_keys_iff.2 ⟨e.2, PosMap.mem_entries_iff.1 he⟩
    exact Scope.holding_of_mem (h e.1 hmem) _ e.2
  have hsteps : equal (.var Var.steps) (.const (.int s.steps)) = .ok (stepsAre s.steps) := rfl
  unfold State.formula
  rw [Result.mapM_eq_map hcells, Result.ok_bind, hsteps, Result.ok_bind]
  apply conj_eq_app
  simp only [List.mem_append, List.mem_map, List.mem_singleton]
  rintro f (⟨e, -, rfl⟩ | rfl) <;> rfl

namespace Rule

theorem guard_eq {r : Rule} {scope : Scope} (h : ∀ p ∈ r.assigned, p ∈ scope.cells) :
    r.guard scope =
      .ok (.app .and (stepsBelow r.limit :: r.requires.map fun e => cellIs e.1 e.2)) := by
  have hcells : ∀ e ∈ r.requires,
      scope.holding .undeclaredGuard e.1 e.2 = .ok (cellIs e.1 e.2) := by
    intro e he
    refine Scope.holding_of_mem (h e.1 ?_) _ e.2
    rw [assigned, PosSet.mem_ofList, ← map_fst_requires]
    exact List.mem_map_of_mem he
  have hbelow : Formula.apply .lt [.var Var.steps, .const (.int r.limit)] =
      .ok (stepsBelow r.limit) := rfl
  unfold guard
  rw [hbelow, Result.ok_bind, Result.mapM_eq_map hcells, Result.ok_bind]
  apply conj_eq_app
  simp only [List.mem_cons, List.mem_map]
  rintro f (rfl | ⟨e, -, rfl⟩) <;> rfl

theorem update_eq {r : Rule} {scope : Scope} (hassigned : ∀ p ∈ r.assigned, p ∈ scope.cells)
    (hframe : ∀ p ∈ r.frame, p ∈ scope.cells) :
    r.update scope = .ok (.app .and (r.effect.map (fun e => becomes e.1 e.2) ++
      counts :: r.frame.map fun p => stays (.cell p))) := by
  have hcells : ∀ e ∈ r.effect, assignment scope e.1 e.2 = .ok (becomes e.1 e.2) := by
    intro e he
    have hmem : e.1 ∈ r.assigned := PosSet.mem_ofList.2 (List.mem_map_of_mem he)
    rw [assignment, Scope.cellVariable_of_mem (hassigned e.1 hmem), Result.ok_bind]
    exact equal_eq_app rfl
  have hheld : ∀ p ∈ r.frame, holding scope p = .ok (stays (.cell p)) := by
    intro p hp
    rw [holding, Scope.cellVariable_of_mem (hframe p hp), Result.ok_bind, Var.unchanged_eq]
  unfold update
  rw [Result.mapM_eq_map hcells, Result.ok_bind, countsStep_eq, Result.ok_bind,
    Result.mapM_eq_map hheld, Result.ok_bind]
  apply conj_eq_app
  simp only [List.mem_append, List.mem_cons, List.mem_map]
  rintro f (⟨e, -, rfl⟩ | rfl | ⟨p, -, rfl⟩) <;> rfl

end Rule

theorem Scope.stutter_eq (scope : Scope) :
    scope.stutter = .ok (.app .and (scope.declared.map stays)) := by
  have hheld : scope.declared.mapM Var.unchanged = .ok (scope.declared.map stays) :=
    Result.mapM_eq_map fun v _ => v.unchanged_eq
  unfold Scope.stutter
  rw [hheld, Result.ok_bind]
  apply conj_eq_app
  simp only [List.mem_map]
  rintro f ⟨v, -, rfl⟩
  rfl

namespace Goal

/-- The condition of winning is an equation for a single cell and a conjunction otherwise. -/
theorem win_eq {g : Goal} {scope : Scope} (h : ∀ p ∈ g.cells, p ∈ scope.cells) :
    g.win scope = .ok (match g.cells with
      | [p] => cellIs p .box
      | cells => .app .and (cells.map fun p => cellIs p .box)) := by
  have hcells : g.cells.mapM (fun p => scope.holding .undeclaredWin p .box) =
      .ok (g.cells.map fun p => cellIs p .box) :=
    Result.mapM_eq_map fun p hp => Scope.holding_of_mem (h p hp) _ _
  have hconj : ∀ cells : List Pos, conj (cells.map fun p => cellIs p .box) =
      .ok (.app .and (cells.map fun p => cellIs p .box)) := by
    intro cells
    apply conj_eq_app
    simp only [List.mem_map]
    rintro f ⟨p, -, rfl⟩
    rfl
  unfold win
  rw [hcells, Result.ok_bind]
  match g.cells with
  | [] => exact hconj []
  | [p] => rfl
  | p :: q :: rest => exact hconj (p :: q :: rest)

theorem exists_win {g : Goal} {scope : Scope} (h : ∀ p ∈ g.cells, p ∈ scope.cells) :
    ∃ f, g.win scope = .ok f ∧ f.kind = .bool := by
  refine ⟨_, win_eq h, ?_⟩
  match g.cells with
  | [] => rfl
  | [p] => rfl
  | p :: q :: rest => rfl

/-- The property says of the condition of winning that it never comes about. -/
theorem exists_property {g : Goal} {scope : Scope} (h : ∀ p ∈ g.cells, p ∈ scope.cells) :
    ∃ f, g.win scope = .ok f ∧
      g.property scope = .ok (.app .not [.app .eventually [f]]) := by
  obtain ⟨f, hf, hkind⟩ := exists_win h
  refine ⟨f, hf, ?_⟩
  unfold property
  rw [hf, Result.ok_bind, eventually_eq_app hkind, Result.ok_bind]
  exact negation_eq_app rfl

end Goal

end Sokoban
