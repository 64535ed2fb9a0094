import Sokoban.Proofs.Play.Successor

/-!
# The step of a play, without rules

A step can be described on the board itself: in row-major order over all positions, and in the order
of the directions, the first keeper that can step steps, and pushes a box if one is in its way. Here
that step is computed from the coordinates, and it is the one that the list of rules leads to.
-/

namespace Sokoban

namespace Board

/-! ## The step on the board -/

def grid (b : Board) : List Pos :=
  (List.range b.height).flatMap fun i => (List.range b.width).map fun j => ⟨i, j⟩

/-- What comes of a step from a cell in a direction, if a keeper can make it. -/
def step? (b : Board) (x : State) (p : Pos) (d : Direction) : Option State :=
  match b.ahead p d 1 with
  | none => none
  | some q =>
    if b.isPassable p ∧ x.get? p = some .keeper ∧ b.isFree q then
      let walked := (x.set p .empty).set q .keeper
      match x.get? q with
      | some .empty => some { walked with steps := x.steps + 1 }
      | some .box =>
        match b.ahead p d 2 with
        | none => none
        | some r =>
          if b.isPassable r ∧ x.get? r = some .empty then
            some { walked.set r .box with steps := x.steps + 1 }
          else none
      | _ => none
    else none

def directStep (b : Board) (limit : Nat) (x : State) : State :=
  if limit ≤ x.steps then x
  else ((b.grid.flatMap fun p => Direction.all.map fun d => (p, d)).findSome?
    fun c => b.step? x c.1 c.2).getD x

/-! ## Positions in order -/

private theorem findSome?_flatMap {α β γ : Type} (l : List α) (f : α → List β) (g : β → Option γ) :
    (l.flatMap f).findSome? g = l.findSome? fun a => (f a).findSome? g := by
  simp only [← List.head?_filterMap, List.filterMap_flatMap, List.head?_flatMap]

private theorem findSome?_filter {α γ : Type} (l : List α) (test : α → Bool) (g : α → Option γ) :
    (l.filter test).findSome? g = l.findSome? fun a => if test a then g a else none := by
  simp only [← List.head?_filterMap, List.filterMap_filter]

variable {b : Board} {scope : Scope} {x : State} {p q r : Pos} {d : Direction}

theorem mem_grid_iff : p ∈ b.grid ↔ p.row < b.height ∧ p.col < b.width := by
  unfold grid
  rw [List.mem_flatMap]
  simp only [List.mem_map, List.mem_range]
  constructor
  · rintro ⟨i, hi, j, hj, rfl⟩
    exact ⟨hi, hj⟩
  · intro hp
    exact ⟨p.row, hp.1, p.col, hp.2, rfl⟩

theorem pairwise_grid (b : Board) : b.grid.Pairwise (· < ·) := by
  unfold grid
  rw [List.pairwise_flatMap]
  constructor
  · intro i _
    rw [List.pairwise_map]
    refine List.pairwise_lt_range.imp ?_
    intro j k hjk
    exact Pos.lt_iff.2 (.inr ⟨rfl, hjk⟩)
  · refine List.pairwise_lt_range.imp ?_
    intro i k hik p hp q hq
    obtain ⟨j, -, rfl⟩ := List.mem_map.1 hp
    obtain ⟨j', -, rfl⟩ := List.mem_map.1 hq
    exact Pos.lt_iff.2 (.inl hik)

theorem passable_eq_filter_grid (b : Board) : b.passable = b.grid.filter b.isPassable := by
  apply PosSet.eq_of_mem_iff (b.pairwise_positions _) (b.pairwise_grid.filter _)
  intro p
  have hmem : p ∈ b.positions Tile.isPassable ↔ b.isPassable p = true := mem_passable_iff
  rw [hmem, List.mem_filter]
  constructor
  · intro hp
    obtain ⟨t, ht, -⟩ := isPassable_iff.1 hp
    exact ⟨mem_grid_iff.2 (lt_of_get? ht), hp⟩
  · intro hp
    exact hp.2

/-! ## Rules and steps -/

theorem fire_move : (Rule.within scope .move p d q none).fire x =
    if x.steps < scope.limit ∧ x.get? p = some .keeper ∧ x.get? q = some .empty then
      some { (x.set p .empty).set q .keeper with steps := x.steps + 1 }
    else none := by
  have henabled : (Rule.within scope .move p d q none).enabled x = true ↔
      x.steps < scope.limit ∧ x.get? p = some .keeper ∧ x.get? q = some .empty := by
    simp [Rule.enabled_iff_cells, Rule.within]
  unfold Rule.fire
  simp only [henabled]
  rfl

theorem fire_push : (Rule.within scope .push p d q (some r)).fire x =
    if x.steps < scope.limit ∧ x.get? p = some .keeper ∧ x.get? q = some .box ∧
        x.get? r = some .empty then
      some { ((x.set p .empty).set q .keeper).set r .box with steps := x.steps + 1 }
    else none := by
  have henabled : (Rule.within scope .push p d q (some r)).enabled x = true ↔
      x.steps < scope.limit ∧ x.get? p = some .keeper ∧ x.get? q = some .box ∧
        x.get? r = some .empty := by
    simp [Rule.enabled_iff_cells, Rule.within]
  unfold Rule.fire
  simp only [henabled]
  rfl

theorem fire_eq_none_of_mem_legalFrom {rule : Rule} (hrule : rule ∈ b.legalFrom scope p d)
    (h : ¬ (x.steps < scope.limit ∧ x.get? p = some .keeper)) : rule.fire x = none := by
  obtain ⟨q, -, -, rfl | ⟨r, -, -, rfl⟩⟩ := mem_legalFrom_iff.1 hrule
  · rw [fire_move, if_neg fun hready => h ⟨hready.1, hready.2.1⟩]
  · rw [fire_push, if_neg fun hready => h ⟨hready.1, hready.2.1⟩]

theorem step?_eq_none (h : ¬ (b.isPassable p = true ∧ x.get? p = some .keeper)) :
    b.step? x p d = none := by
  unfold step?
  cases b.ahead p d 1 with
  | none => rfl
  | some q => exact if_neg fun hready => h ⟨hready.1, hready.2.1⟩

/-- Of the rules for a cell and a direction the one that fires makes the step. -/
theorem findSome?_legalFrom (hp : b.isPassable p = true) (hlimit : x.steps < scope.limit) :
    (b.legalFrom scope p d).findSome? (·.fire x) = b.step? x p d := by
  by_cases hkeeper : x.get? p = some .keeper
  · unfold legalFrom step?
    cases b.ahead p d 1 with
    | none => rfl
    | some q =>
        dsimp only
        by_cases hfree : b.isFree q = true
        · rw [if_pos hfree, if_pos ⟨hp, hkeeper, hfree⟩]
          -- what the next cell holds decides between the move, the push and neither
          rcases hq : x.get? q with _ | _ | _ | _ <;> cases b.ahead p d 2 with
          | none => simp [fire_move, hlimit, hkeeper, hq]
          | some r =>
              by_cases hr : b.isPassable r = true
              · simp [fire_move, fire_push, hlimit, hkeeper, hq, hr]
              · simp [fire_move, hlimit, hkeeper, hq, hr]
        · simp [hfree]
  · rw [step?_eq_none fun hready => hkeeper hready.2, List.findSome?_eq_none_iff]
    intro rule hrule
    exact fire_eq_none_of_mem_legalFrom hrule fun hready => hkeeper hready.2

end Board

namespace System

variable {s : System} {b : Board} {limit : Nat} {keep : Option Pos} {goal : Goal} {x : State}

theorem BuiltFrom.findSome?_rules (h : s.BuiltFrom b limit keep goal) (hb : b.Fits)
    (hlimit : x.steps < limit) :
    s.rules.findSome? (·.fire x) =
      (b.grid.flatMap fun p => Direction.all.map fun d => (p, d)).findSome?
        fun c => b.step? x c.1 c.2 := by
  rw [h.rules_eq hb, Board.findSome?_flatMap, Board.departures, Board.passable_eq_filter_grid,
    Board.findSome?_flatMap, Board.findSome?_filter, Board.findSome?_flatMap]
  congr 1
  funext p
  simp only [List.findSome?_map]
  -- from a cell that is not passable no rule leads on, and on the grid no step either
  split
  · rename_i hp
    congr 1
    funext d
    exact Board.findSome?_legalFrom hp hlimit
  · rename_i hp
    refine (List.findSome?_eq_none_iff.2 fun d _ => ?_).symm
    exact Board.step?_eq_none fun hready => hp hready.1

theorem BuiltFrom.successor_eq_direct (h : s.BuiltFrom b limit keep goal) (hb : b.Fits)
    (x : State) : s.successor x = b.directStep limit x := by
  unfold Board.directStep
  by_cases hlimit : limit ≤ x.steps
  · rw [if_pos hlimit]
    exact successor_of_enabled_eq_nil (h.enabled_eq_nil_of_le hb hlimit)
  · rw [if_neg hlimit, ← h.findSome?_rules hb (by omega)]
    rfl

theorem not_enabled_of_kind {scope : Scope} {r q : Rule} (hr : r.Legal b scope)
    (hq : q.Legal b scope) (hkeeper : r.keeper = q.keeper) (hdirection : r.direction = q.direction)
    (hmove : r.kind = .move) (hpush : q.kind = .push) (henabled : r.enabled x = true) :
    q.enabled x ≠ true := by
  intro hqenabled
  -- both look at the same cell, which tells them apart
  have hsame : r.beyond = none ↔ q.beyond = none := by
    rw [← Rule.get?_target_eq_empty_iff henabled, ← Rule.get?_target_eq_empty_iff hqenabled,
      hr.target_eq hq hkeeper hdirection]
  have hkind : r.kind = q.kind := (hr.kind_eq_iff hq).2 hsame
  rw [hmove, hpush] at hkind
  cases hkind

/-- The successor of a state is the state after the first step that a keeper can make on the board.
A move and the push in the same direction are never both enabled. -/
theorem successor_eq_directStep (hb : b.Drawn) (hs : s.CompiledFrom b limit) (x : State) :
    s.successor x = b.directStep limit x ∧
      ∀ r ∈ s.rules, ∀ q ∈ s.rules, r.keeper = q.keeper → r.direction = q.direction →
        r.kind = .move → q.kind = .push → ¬ (r.enabled x = true ∧ q.enabled x = true) := by
  obtain ⟨keep, goal, h, -⟩ := hs.exists_builtFrom hb.fits
  refine ⟨h.successor_eq_direct hb.fits x, ?_⟩
  intro r hr q hq hkeeper hdirection hmove hpush henabled
  exact not_enabled_of_kind (h.legal hb.fits hr) (h.legal hb.fits hq) hkeeper hdirection hmove hpush
    henabled.1 henabled.2

theorem successor_eq_directStep_of_corridor :
    ∃ (b : Board) (s : System) (r q : Rule), b.Drawn ∧ s.CompiledFrom b 3 ∧ r ∈ s.rules ∧
      q ∈ s.rules ∧ r.keeper = q.keeper ∧ r.direction = q.direction ∧ r.kind = .move ∧
      q.kind = .push ∧ s.successor s.start ≠ s.start ∧
      s.successor s.start = b.directStep 3 s.start ∧
      ¬ (r.enabled s.start = true ∧ q.enabled s.start = true) := by
  have hb : Board.Drawn ⟨[[.keeper, .box, .goal]], 3, by decide⟩ := ⟨"@$.", by decide, rfl⟩
  obtain ⟨s, hs, hmoved, r, hr, q, hq, hkeeper, hdirection, hmove, hpush⟩ :
      ∃ s, compile ⟨[[.keeper, .box, .goal]], 3, by decide⟩ 3 = .ok s ∧
        s.successor s.start ≠ s.start ∧ ∃ r ∈ s.rules, ∃ q ∈ s.rules, r.keeper = q.keeper ∧
          r.direction = q.direction ∧ r.kind = .move ∧ q.kind = .push :=
    ⟨_, rfl, by decide, by decide⟩
  obtain ⟨hsuccessor, hexclusive⟩ := successor_eq_directStep hb (.whole hs) s.start
  exact ⟨_, s, r, q, hb, .whole hs, hr, hq, hkeeper, hdirection, hmove, hpush, hmoved, hsuccessor,
    hexclusive r hr q hq hkeeper hdirection hmove hpush⟩

end System

end Sokoban
