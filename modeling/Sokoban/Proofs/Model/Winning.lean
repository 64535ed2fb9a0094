import Sokoban.Proofs.Model.Meaning

/-!
# The condition of winning

The formula for winning has, in every state over the declared cells, the value that says whether the
goal is reached there. So the property of a model is refuted along a sequence of such states exactly
if the goal is reached in one of them. There are both formulas exactly if every cell of the goal is
declared, and else the first that is not is named.
-/

namespace Sokoban

namespace Formula

/-! ## Formulas along a sequence of states

A property of a model is read along an infinite sequence of states. Only there has `eventually` a
meaning; all that is about a single state is evaluated in that state.
-/

mutual

/-- What a formula says at a place of a sequence. `eventually` looks for a place from there on,
negation and conjunction are taken apart, and any other formula is about the state at the place. -/
def TrueAt (σ : Nat → State) : StateFormula → Nat → Prop
  | app .eventually [f], n => ∃ k, n ≤ k ∧ TrueAt σ f k
  | app .not [f], n => ¬ TrueAt σ f n
  | app .and args, n => AllTrueAt σ args n
  | f, n => f.Holds (σ n).value?

def AllTrueAt (σ : Nat → State) : List StateFormula → Nat → Prop
  | [], _ => True
  | f :: rest, n => TrueAt σ f n ∧ AllTrueAt σ rest n

end

variable {σ : Nat → State} {n : Nat}

theorem allTrueAt_iff {args : List StateFormula} :
    AllTrueAt σ args n ↔ ∀ f ∈ args, TrueAt σ f n := by
  induction args with
  | nil => simp [AllTrueAt]
  | cons f rest ih => rw [AllTrueAt, ih, List.forall_mem_cons]

theorem trueAt_and_iff {args : List StateFormula} :
    TrueAt σ (app .and args) n ↔ ∀ f ∈ args, TrueAt σ f n := by
  rw [TrueAt, allTrueAt_iff]

theorem not_trueAt_never_iff {f : StateFormula} :
    ¬ TrueAt σ (app .not [app .eventually [f]]) 0 ↔ ∃ k, TrueAt σ f k := by
  simp [TrueAt]

/-! ## Boxes on the cells of a goal -/

/-- A box on each of some cells; for a single cell this is no conjunction. -/
def boxesOn : List Pos → StateFormula
  | [p] => cellIs p .box
  | cells => .app .and (cells.map fun p => cellIs p .box)

variable {cells : List Pos} {x : State}

theorem boxesOn_cases {P : StateFormula → Prop} (cells : List Pos)
    (single : ∀ p, cells = [p] → P (cellIs p .box))
    (several : P (.app .and (cells.map fun p => cellIs p .box))) : P (boxesOn cells) := by
  match cells with
  | [] => exact several
  | [p] => exact single p rfl
  | p :: q :: rest => exact several

theorem isDecided_cellIs_box {p : Pos} (h : ∃ c, x.get? p = some c) :
    (cellIs p .box).IsDecided x.value? := by
  obtain ⟨c, hc⟩ := h
  exact isDecided_cellIs hc .box

theorem holds_cellIs_box_iff {p : Pos} (h : ∃ c, x.get? p = some c) :
    (cellIs p .box).Holds x.value? ↔ x.get? p = some .box := by
  obtain ⟨c, hc⟩ := h
  exact holds_cellIs_iff hc

theorem isDecided_boxesOn (h : ∀ p ∈ cells, ∃ c, x.get? p = some c) :
    (boxesOn cells).IsDecided x.value? := by
  have hcell : ∀ p ∈ cells, (cellIs p .box).IsDecided x.value? :=
    fun p hp => isDecided_cellIs_box (h p hp)
  apply boxesOn_cases
  · intro p hp
    exact hcell p (hp ▸ List.mem_cons_self)
  · exact isDecided_and (List.forall_mem_map.2 hcell)

theorem holds_boxesOn_iff (h : ∀ p ∈ cells, ∃ c, x.get? p = some c) :
    (boxesOn cells).Holds x.value? ↔ ∀ p ∈ cells, x.get? p = some .box := by
  apply boxesOn_cases (P := fun f => f.Holds x.value? ↔ _)
  · rintro p rfl
    rw [List.forall_mem_singleton]
    exact holds_cellIs_box_iff (h p List.mem_cons_self)
  · have hdecided : ∀ p ∈ cells, (cellIs p .box).IsDecided x.value? :=
      fun p hp => isDecided_cellIs_box (h p hp)
    rw [holds_and_iff (List.forall_mem_map.2 hdecided), List.forall_mem_map]
    exact forall₂_congr fun p hp => holds_cellIs_box_iff (h p hp)

theorem trueAt_cellIs_iff {σ : Nat → State} {n : Nat} {p : Pos} {c : Content} :
    (cellIs p c).TrueAt σ n ↔ (cellIs p c).Holds (σ n).value? := by
  rw [cellIs, TrueAt]
  all_goals simp

theorem trueAt_boxesOn_iff {σ : Nat → State} {n : Nat}
    (h : ∀ p ∈ cells, ∃ c, (σ n).get? p = some c) :
    (boxesOn cells).TrueAt σ n ↔ ∀ p ∈ cells, (σ n).get? p = some .box := by
  apply boxesOn_cases (P := fun f => f.TrueAt σ n ↔ _)
  · rintro p rfl
    rw [List.forall_mem_singleton, trueAt_cellIs_iff]
    exact holds_cellIs_box_iff (h p List.mem_cons_self)
  · rw [trueAt_and_iff, List.forall_mem_map]
    refine forall₂_congr fun p hp => ?_
    rw [trueAt_cellIs_iff, holds_cellIs_box_iff (h p hp)]

end Formula

open Formula

namespace Goal

variable {g : Goal} {scope : Scope}

theorem isWon_iff {x : State} : g.isWon x = true ↔ ∀ p ∈ g.cells, x.get? p = some .box := by
  simp [isWon]

theorem win_eq_boxesOn (h : ∀ p ∈ g.cells, p ∈ scope.cells) :
    g.win scope = .ok (boxesOn g.cells) := by
  rw [win_eq h]
  unfold boxesOn
  rfl

theorem value_boxesOn (h : ∀ p ∈ g.cells, p ∈ scope.cells) {x : State}
    (hx : x.cells.keys = scope.cells) :
    (boxesOn g.cells).value x.value? = .ok (.bool (g.isWon x)) := by
  have hcells : ∀ p ∈ g.cells, ∃ c, x.get? p = some c :=
    fun p hp => State.exists_get? hx (h p hp)
  have hiff : (boxesOn g.cells).Holds x.value? ↔ g.isWon x = true := by
    rw [holds_boxesOn_iff hcells, isWon_iff]
  rw [(isDecided_boxesOn hcells).value_eq_decide hiff, Bool.decide_eq_true]

theorem property_eq (h : ∀ p ∈ g.cells, p ∈ scope.cells) :
    g.property scope = .ok (.app .not [.app .eventually [boxesOn g.cells]]) := by
  obtain ⟨f, hf, hproperty⟩ := exists_property h
  rw [win_eq_boxesOn h] at hf
  obtain rfl := Except.ok.inj hf
  exact hproperty

/-- Along states over the scope, the property is refuted by a state in which the goal is reached. -/
theorem not_trueAt_property_iff (h : ∀ p ∈ g.cells, p ∈ scope.cells) {σ : Nat → State}
    (hσ : ∀ n, (σ n).cells.keys = scope.cells) :
    ¬ (app .not [app .eventually [boxesOn g.cells]]).TrueAt σ 0 ↔
      ∃ n, g.isWon (σ n) = true := by
  rw [not_trueAt_never_iff]
  refine exists_congr fun n => ?_
  have hcells : ∀ p ∈ g.cells, ∃ c, (σ n).get? p = some c :=
    fun p hp => State.exists_get? (hσ n) (h p hp)
  rw [trueAt_boxesOn_iff hcells, isWon_iff]

/-! ## Goals that are not declared -/

theorem exists_win_eq_fail (h : ¬ ∀ p ∈ g.cells, p ∈ scope.cells) :
    ∃ before p behind, g.cells = before ++ p :: behind ∧ (∀ q ∈ before, q ∈ scope.cells) ∧
      p ∉ scope.cells ∧ g.win scope = Result.fail (.model (.undeclaredWin p)) := by
  obtain ⟨before, p, behind, hcells, hbefore, hp⟩ := Result.exists_first h
  refine ⟨before, p, behind, hcells, hbefore, hp, ?_⟩
  have hparts : (before ++ p :: behind).mapM (fun q => scope.holding .undeclaredWin q .box) =
      Result.fail (.model (.undeclaredWin p)) :=
    Result.mapM_eq_error (fun q hq => ⟨_, Scope.holding_of_mem (hbefore q hq) _ _⟩)
      (Scope.holding_of_not_mem hp _ _)
  unfold win
  rw [hcells, hparts]
  rfl

theorem property_eq_fail {issue : Issue} (h : g.win scope = Result.fail issue) :
    g.property scope = Result.fail issue := by
  unfold property
  rw [h]
  rfl

theorem declared_of_win {f : StateFormula} (h : g.win scope = .ok f) :
    ∀ p ∈ g.cells, p ∈ scope.cells := by
  refine Classical.byContradiction fun hcells => ?_
  obtain ⟨-, p, -, -, -, -, hfail⟩ := exists_win_eq_fail hcells
  rw [hfail] at h
  cases h

theorem eq_boxesOn_of_win {f : StateFormula} (h : g.win scope = .ok f) : f = boxesOn g.cells := by
  rw [win_eq_boxesOn (declared_of_win h)] at h
  exact (Except.ok.inj h).symm

/-- What the formula for winning and the property of a goal come to within a scope. -/
structure Formulated (g : Goal) (scope : Scope) : Prop where
  win_ok_iff : (∃ f, g.win scope = .ok f) ↔ ∀ p ∈ g.cells, p ∈ scope.cells
  property_ok_iff : (∃ f, g.property scope = .ok f) ↔ ∀ p ∈ g.cells, p ∈ scope.cells
  /-- Of the cells that are not declared the first is named. -/
  undeclared : (¬ ∀ p ∈ g.cells, p ∈ scope.cells) →
    ∃ before p behind, g.cells = before ++ p :: behind ∧ (∀ q ∈ before, q ∈ scope.cells) ∧
      p ∉ scope.cells ∧ g.win scope = Result.fail (.model (.undeclaredWin p)) ∧
      g.property scope = Result.fail (.model (.undeclaredWin p)) ∧
      (ModelIssue.undeclaredWin p).message = "goal cell " ++ p.text ++ " is undeclared"
  property_eq : ∀ f, g.win scope = .ok f →
    g.property scope = .ok (.app .not [.app .eventually [f]])
  value_win : ∀ f x, g.win scope = .ok f → x.cells.keys = scope.cells →
    f.value x.value? = .ok (.bool (g.isWon x))

/-- The formula for winning says of every state over the scope whether the goal is reached. -/
theorem formulated (g : Goal) (scope : Scope) : g.Formulated scope := by
  constructor
  case win_ok_iff => exact ⟨fun ⟨f, hf⟩ => declared_of_win hf, fun h => ⟨_, win_eq_boxesOn h⟩⟩
  case property_ok_iff =>
    refine ⟨fun ⟨f, hf⟩ => ?_, fun h => ⟨_, property_eq h⟩⟩
    unfold property at hf
    obtain ⟨win, hwin, -⟩ := Result.bind_eq_ok.1 hf
    exact declared_of_win hwin
  case undeclared =>
    intro h
    obtain ⟨before, p, behind, hcells, hbefore, hp, hfail⟩ := exists_win_eq_fail h
    exact ⟨before, p, behind, hcells, hbefore, hp, hfail, property_eq_fail hfail, rfl⟩
  case property_eq =>
    intro f hf
    rw [eq_boxesOn_of_win hf]
    exact property_eq (declared_of_win hf)
  case value_win =>
    intro f x hf hx
    rw [eq_boxesOn_of_win hf]
    exact value_boxesOn (declared_of_win hf) hx

end Goal

end Sokoban
