import Sokoban.Model.Legal
import Sokoban.Proofs.Board.Ahead
import Sokoban.Proofs.Model.Firing

/-!
# The rules of a board are its legal steps

On a board that fits into words, `Board.rules` answers, and a rule is in its answer exactly when it
is `Legal`: it leaves a passable cell for a free one, a push moreover has a passable cell beyond,
and the cells are where the direction says.
-/

namespace Sokoban

/-- A step that the drawing of a board allows, called by its kind and with the frame that a scope
gives it. -/
structure Rule.Legal (b : Board) (scope : Scope) (r : Rule) : Prop where
  kind_eq_move_iff : r.kind = .move ↔ r.beyond = none
  passable : b.isPassable r.keeper = true
  target : b.ahead r.keeper r.direction 1 = some r.target
  free : b.isFree r.target = true
  beyond : ∀ q, r.beyond = some q →
    b.ahead r.keeper r.direction 2 = some q ∧ b.isPassable q = true
  within : r = Rule.within scope r.kind r.keeper r.direction r.target r.beyond

theorem Rule.Legal.kind_eq_push_iff {b : Board} {scope : Scope} {r : Rule} (h : r.Legal b scope) :
    r.kind = .push ↔ ∃ q, r.beyond = some q := by
  have hpush : r.kind = .push ↔ ¬ r.kind = .move := by cases r.kind <;> decide
  rw [hpush, h.kind_eq_move_iff]
  exact Option.ne_none_iff_exists'

namespace Board

/-- The rules for a keeper on a cell in a direction, reckoned in whole numbers. -/
def legalFrom (b : Board) (scope : Scope) (keeper : Pos) (d : Direction) : List Rule :=
  match b.ahead keeper d 1 with
  | none => []
  | some target =>
    if b.isFree target then
      let move := Rule.within scope .move keeper d target none
      match b.ahead keeper d 2 with
      | none => [move]
      | some beyond =>
        if b.isPassable beyond then [move, Rule.within scope .push keeper d target (some beyond)]
        else [move]
    else []

theorem rulesFrom_eq_legalFrom {b : Board} (hb : b.Fits) {p : Pos} {t : Tile}
    (hp : b.get? p = some t) (scope : Scope) (d : Direction) :
    b.rulesFrom scope p d = .ok (b.legalFrom scope p d) := by
  unfold rulesFrom legalFrom
  rw [neighbor_eq_ahead hb hp]
  simp only [Result.ok_bind]
  cases hq : b.ahead p d 1 with
  | none => rfl
  | some q =>
      dsimp only
      split
      · rw [shift_two_eq_ahead hb hp hq]
        simp only [Result.ok_bind]
        cases b.ahead p d 2 with
        | none => rfl
        | some beyond =>
            dsimp only
            split <;> rfl
      · rfl

theorem mem_departures_iff {b : Board} {p : Pos} {d : Direction} :
    (p, d) ∈ b.departures ↔ b.isPassable p = true := by
  simp [departures, mem_passable_iff, Direction.mem_all]

theorem rules_eq_legalFrom {b : Board} (hb : b.Fits) (scope : Scope) :
    b.rules scope = .ok (b.departures.flatMap fun c => b.legalFrom scope c.1 c.2) := by
  have hparts : ∀ c ∈ b.departures,
      b.rulesFrom scope c.1 c.2 = .ok (b.legalFrom scope c.1 c.2) := by
    intro c hc
    obtain ⟨t, ht, -⟩ := isPassable_iff.1 (mem_departures_iff.1 hc)
    exact rulesFrom_eq_legalFrom hb ht scope c.2
  unfold rules
  rw [Result.mapM_eq_map hparts, Result.ok_bind, List.flatMap_def]
  rfl

/-- The step from a cell in a direction is a move, or a push if there is a passable cell beyond. -/
theorem mem_legalFrom_iff {b : Board} {scope : Scope} {p : Pos} {d : Direction} {r : Rule} :
    r ∈ b.legalFrom scope p d ↔
      ∃ target, b.ahead p d 1 = some target ∧ b.isFree target = true ∧
        (r = Rule.within scope .move p d target none ∨
          ∃ q, b.ahead p d 2 = some q ∧ b.isPassable q = true ∧
            r = Rule.within scope .push p d target (some q)) := by
  unfold legalFrom
  cases b.ahead p d 1 with
  | none => simp
  | some target =>
      dsimp only
      by_cases hfree : b.isFree target = true
      · rw [if_pos hfree]
        cases b.ahead p d 2 with
        | none => simp [hfree]
        | some q =>
            dsimp only
            by_cases hq : b.isPassable q = true
            · simp [hfree, hq]
            · simp [hfree, hq]
      · simp [hfree]

theorem mem_rules_iff {b : Board} (hb : b.Fits) {scope : Scope} {rules : List Rule}
    (h : b.rules scope = .ok rules) {r : Rule} : r ∈ rules ↔ r.Legal b scope := by
  rw [rules_eq_legalFrom hb] at h
  obtain rfl := Except.ok.inj h
  rw [List.mem_flatMap]
  constructor
  · rintro ⟨⟨p, d⟩, hp, hr⟩
    have hpass := mem_departures_iff.1 hp
    obtain ⟨target, htarget, hfree, rfl | ⟨q, hq, hqpass, rfl⟩⟩ := mem_legalFrom_iff.1 hr
    · refine ⟨iff_of_true rfl rfl, hpass, htarget, hfree, fun _ h => ?_, rfl⟩
      cases h
    · refine ⟨iff_of_false (by rintro ⟨⟩) (by rintro ⟨⟩), hpass, htarget, hfree, fun _ h => ?_, rfl⟩
      cases h
      exact ⟨hq, hqpass⟩
  · intro hr
    refine ⟨(r.keeper, r.direction), mem_departures_iff.2 hr.passable, ?_⟩
    refine mem_legalFrom_iff.2 ⟨r.target, hr.target, hr.free, ?_⟩
    have hwithin := hr.within
    cases hb' : r.beyond with
    | none =>
        rw [hr.kind_eq_move_iff.2 hb', hb'] at hwithin
        exact Or.inl hwithin
    | some q =>
        rw [hr.kind_eq_push_iff.2 ⟨q, hb'⟩, hb'] at hwithin
        exact Or.inr ⟨q, (hr.beyond q hb').1, (hr.beyond q hb').2, hwithin⟩

end Board

namespace Rule

theorem mem_frame_within_iff {scope : Scope} {r : Rule}
    (h : r = within scope r.kind r.keeper r.direction r.target r.beyond) {p : Pos} :
    p ∈ r.frame ↔ p ∈ scope.cells ∧ p ∉ r.assigned := by
  rw [h]
  simp only [within, List.mem_filter, decide_eq_true_eq]
  rfl

namespace Legal

variable {b : Board} {scope : Scope} {r : Rule}

theorem limit_eq (h : r.Legal b scope) : r.limit = scope.limit := by
  rw [h.within]
  rfl

theorem mem_frame_iff (h : r.Legal b scope) {p : Pos} :
    p ∈ r.frame ↔ p ∈ scope.cells ∧ p ∉ r.assigned :=
  mem_frame_within_iff h.within

theorem ahead_target (h : r.Legal b scope) : r.keeper.Ahead r.direction 1 r.target :=
  (Board.ahead_eq_some_iff.1 h.target).1

theorem ahead_beyond (h : r.Legal b scope) {q : Pos} (hq : r.beyond = some q) :
    r.keeper.Ahead r.direction 2 q :=
  (Board.ahead_eq_some_iff.1 (h.beyond q hq).1).1

/-- The cell beyond is the neighbour of the target in the direction of the step. -/
theorem neighbor_target (h : r.Legal b scope) (hb : b.Fits) {q : Pos} (hq : r.beyond = some q) :
    b.neighbor r.target r.direction = .ok (some q) := by
  obtain ⟨t, ht, -⟩ := Board.isFree_iff.1 h.free
  obtain ⟨hahead, hrow, hcol⟩ := Board.ahead_eq_some_iff.1 (h.beyond q hq).1
  rw [Board.neighbor_eq_ahead hb ht,
    Board.ahead_eq_some_iff.2 ⟨h.ahead_target.rest hahead, hrow, hcol⟩]

theorem distinct (h : r.Legal b scope) : r.Distinct where
  keeper_ne_target := h.ahead_target.ne_start (by decide)
  keeper_ne_beyond := fun hq => (h.ahead_beyond hq).ne_start (by decide) rfl
  target_ne_beyond := fun hq => h.ahead_target.ne (h.ahead_beyond hq) (by decide) rfl

theorem target_eq {q : Rule} (hr : r.Legal b scope) (hq : q.Legal b scope)
    (hkeeper : r.keeper = q.keeper) (hdirection : r.direction = q.direction) :
    r.target = q.target := by
  have hahead := hr.target
  rw [hkeeper, hdirection, hq.target] at hahead
  exact (Option.some.inj hahead).symm

/-- The kind says the same as the cell beyond. -/
theorem kind_eq_iff {q : Rule} (hr : r.Legal b scope) (hq : q.Legal b scope) :
    r.kind = q.kind ↔ (r.beyond = none ↔ q.beyond = none) := by
  rw [← hr.kind_eq_move_iff, ← hq.kind_eq_move_iff]
  exact ⟨fun h => by rw [h], RuleKind.eq_of_move_iff⟩

theorem ext {q : Rule} (hr : r.Legal b scope) (hq : q.Legal b scope) (hkeeper : r.keeper = q.keeper)
    (hdirection : r.direction = q.direction) (hkind : r.kind = q.kind) : r = q := by
  have htarget : r.target = q.target := hr.target_eq hq hkeeper hdirection
  have hnone : r.beyond = none ↔ q.beyond = none := (hr.kind_eq_iff hq).1 hkind
  have hbeyond : r.beyond = q.beyond := by
    cases hrb : r.beyond with
    | none => exact (hnone.1 hrb).symm
    | some c =>
        cases hqb : q.beyond with
        | none =>
            rw [hnone.2 hqb] at hrb
            cases hrb
        | some d =>
            have hahead := (hr.beyond c hrb).1
            rw [hkeeper, hdirection, (hq.beyond d hqb).1] at hahead
            exact hahead.symm
  rw [hr.within, hq.within, hkind, hkeeper, hdirection, htarget, hbeyond]

/-- Every cell that a rule assigns is on the board and not a wall. -/
theorem isFree_of_mem_assigned (h : r.Legal b scope) {p : Pos} (hp : p ∈ r.assigned) :
    b.isFree p = true := by
  rcases mem_assigned_iff.1 hp with rfl | rfl | hp
  · exact Board.isFree_of_isPassable h.passable
  · exact h.free
  · exact Board.isFree_of_isPassable (h.beyond p hp).2

/-! ## Cells that are drawn with a box -/

variable {x y : State} {p : Pos}

theorem eq_target_of_mem_boxes (hr : r.Legal b scope) (hp : p ∈ b.boxes) (h : p ∈ r.assigned) :
    p = r.target := by
  have hpassable := Board.not_isPassable_of_mem_boxes hp
  rcases mem_assigned_iff.1 h with hkeeper | htarget | hbeyond
  · exact absurd (hkeeper ▸ hr.passable) hpassable
  · exact htarget
  · exact absurd (hr.beyond p hbeyond).2 hpassable

/-- A cell that is drawn with a box is neither left nor pushed onto, so a step changes it only by
putting a keeper there. -/
theorem fire_of_mem_boxes (hr : r.Legal b scope) (hp : p ∈ b.boxes) (h : r.fire x = some y) :
    y.get? p = x.get? p ∨
      (y.get? p = some .keeper ∧ (x.get? p = some .box ∨ x.get? p = some .empty)) := by
  obtain ⟨henabled, rfl⟩ := fire_eq_some_iff.1 h
  by_cases hassigned : p ∈ r.assigned
  · right
    rw [hr.eq_target_of_mem_boxes hp hassigned]
    exact ⟨get?_apply_target hr.distinct x, get?_target henabled⟩
  · exact .inl (get?_apply_of_not_mem hassigned x)

end Legal

end Rule

end Sokoban
