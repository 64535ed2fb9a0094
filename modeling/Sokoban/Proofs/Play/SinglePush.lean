import Sokoban.Proofs.Play.Basic

/-!
# One keeper pushes once

A keeper may step onto a cell that is drawn with a box, but no rule leaves such a cell. So the first
push takes the only keeper of a board to a cell from which nothing leads on.
-/

namespace Sokoban

/-- A state in which the only keeper stands on a cell. -/
def State.Lone (x : State) (k : Pos) : Prop := ∀ p, x.get? p = some .keeper ↔ p = k

theorem State.Lone.unique {x : State} {p q : Pos} (hp : x.Lone p) (hq : x.Lone q) : p = q :=
  (hq p).1 ((hp p).2 rfl)

theorem State.Lone.keeper_eq {x : State} {k : Pos} (h : x.Lone k) {r : Rule}
    (henabled : r.enabled x = true) : r.keeper = k :=
  (h r.keeper).1 (Rule.enabled_iff_cells.1 henabled).2.1

theorem State.Lone.apply {x : State} {k : Pos} (h : x.Lone k) {r : Rule} (hr : r.Distinct)
    (henabled : r.enabled x = true) : (r.apply x).Lone r.target := by
  intro p
  rw [Rule.get?_apply_eq_keeper_iff hr henabled, h p, h.keeper_eq henabled]
  simp

theorem State.Lone.positions_eq {x : State} {k : Pos} (h : x.Lone k) : x.positions .keeper = [k] :=
  (State.positions_eq_iff (List.pairwise_singleton _ k)).2 fun p => by
    rw [h p, List.mem_singleton]

namespace System

structure Unpushed (s : System) (x : State) : Prop where
  boxes : ∀ p, x.get? p = some .box ↔ s.start.get? p = some .box
  keeper : ∃ k, x.Lone k

/-- A state in which one box was pushed, from a cell to a passable neighbour of it. The keeper
stands where the box was, and nothing can follow. -/
structure PushedAt (s : System) (b : Board) (x : State) (cell landing : Pos) : Prop where
  boxed : s.start.get? cell = some .box
  neighbor : ∃ d, b.neighbor cell d = .ok (some landing)
  passable : b.isPassable landing = true
  vacant : s.start.get? landing ≠ some .box
  boxes : ∀ p, x.get? p = some .box ↔ p = landing ∨ (s.start.get? p = some .box ∧ p ≠ cell)
  keeper : x.positions .keeper = [cell]
  stuck : s.enabled x = []

variable {s : System} {b : Board} {limit : Nat} {keep : Option Pos} {goal : Goal}

/-- All boxes of the start are drawn; the drawing may have more of them. -/
theorem BuiltFrom.mem_boxes (h : s.BuiltFrom b limit keep goal) {p : Pos}
    (hp : s.start.get? p = some .box) : p ∈ b.boxes := by
  rw [h.start] at hp
  exact (State.get?_initial_box_iff.1 hp).1

theorem BuiltFrom.unpushed_start (h : s.BuiltFrom b limit keep goal)
    (hone : b.keepers.length = 1) : s.Unpushed s.start where
  boxes := fun _ => Iff.rfl
  keeper := by
    obtain ⟨k, hk⟩ := List.length_eq_one_iff.1 hone
    refine ⟨k, fun p => ?_⟩
    rw [h.start, State.get?_initial_keeper_iff, hk, List.mem_singleton]

theorem BuiltFrom.enabled_eq_nil (h : s.BuiltFrom b limit keep goal) (hb : b.Fits) {x : State}
    {k : Pos} (hlone : x.Lone k) (hk : k ∈ b.boxes) : s.enabled x = [] := by
  unfold enabled
  rw [List.filter_eq_nil_iff]
  intro r hr henabled
  have hkeeper : r.keeper = k := hlone.keeper_eq henabled
  exact Board.not_isPassable_of_mem_boxes hk (hkeeper ▸ (h.legal hb hr).passable)

theorem Unpushed.move {x : State} (hx : s.Unpushed x) {r : Rule} (hr : r.Distinct)
    (henabled : r.enabled x = true) (hbeyond : r.beyond = none) : s.Unpushed (r.apply x) where
  boxes := by
    have htarget : x.get? r.target = some .empty :=
      (Rule.get?_target_eq_empty_iff henabled).2 hbeyond
    intro p
    rw [Rule.get?_apply_eq_box_iff henabled, hbeyond, ← hx.boxes p]
    constructor
    · rintro (hp | ⟨hp, -⟩)
      · cases hp
      · exact hp
    · intro hp
      refine .inr ⟨hp, ?_⟩
      rintro rfl
      rw [htarget] at hp
      cases hp
  keeper := by
    obtain ⟨k, hk⟩ := hx.keeper
    exact ⟨_, hk.apply hr henabled⟩

/-- A push is the first one, and the last step. -/
theorem Unpushed.push (h : s.BuiltFrom b limit keep goal) (hb : b.Fits) {x : State}
    (hx : s.Unpushed x) {r : Rule} (hr : r.Legal b (Scope.ofBoard b limit))
    (henabled : r.enabled x = true) {q : Pos} (hq : r.beyond = some q) :
    s.PushedAt b (r.apply x) r.target q := by
  obtain ⟨k, hk⟩ := hx.keeper
  have hlone : (r.apply x).Lone r.target := hk.apply hr.distinct henabled
  have hbox : s.start.get? r.target = some .box :=
    (hx.boxes _).1 (Rule.get?_of_beyond henabled hq).1
  have hpassable : b.isPassable q = true := (hr.beyond q hq).2
  exact {
    boxed := hbox
    neighbor := ⟨r.direction, hr.neighbor_target hb hq⟩
    passable := hpassable
    vacant := fun hvacant => Board.not_isPassable_of_mem_boxes (h.mem_boxes hvacant) hpassable
    boxes := fun p => by
      rw [Rule.get?_apply_eq_box_iff henabled, hq, hx.boxes p, Option.some.injEq, @eq_comm _ q p]
    keeper := hlone.positions_eq
    stuck := h.enabled_eq_nil hb hlone (h.mem_boxes hbox) }

theorem Unpushed.step (h : s.BuiltFrom b limit keep goal) (hb : b.Fits) {x y : State}
    (hx : s.Unpushed x) (hxy : s.Fires x y) :
    s.Unpushed y ∨ ∃ cell landing, s.PushedAt b y cell landing := by
  obtain ⟨r, hr, henabled, rfl⟩ := h.exists_legal hb hxy
  cases hbeyond : r.beyond with
  | none => exact .inl (hx.move hr.distinct henabled hbeyond)
  | some q => exact .inr ⟨r.target, q, hx.push h hb hr henabled hbeyond⟩

/-- In every play on a board with one keeper the boxes are where they were at the start, but for at
most one, and that one was pushed by the last step. -/
theorem single_push {play : List State} {x : State} (hb : b.Drawn)
    (hone : b.keepers.length = 1) (hs : s.CompiledFrom b limit) (hplay : s.IsPlay play)
    (hx : x ∈ play) :
    x.positions .box = s.start.positions .box ∨
      ∃ cell landing, s.PushedAt b x cell landing := by
  obtain ⟨keep, goal, h, -⟩ := hs.exists_builtFrom hb.fits
  have hstep : ∀ x y, (s.Unpushed x ∨ ∃ cell landing, s.PushedAt b x cell landing) →
      s.Fires x y → s.Unpushed y ∨ ∃ cell landing, s.PushedAt b y cell landing := by
    -- a play goes on only from a state in which nothing was pushed
    rintro x y (hx | ⟨cell, landing, hx⟩) hxy
    · exact hx.step h hb.fits hxy
    · exact absurd hxy (enabled_eq_nil_iff.1 hx.stuck y)
  refine (hplay.forall_mem (.inl (h.unpushed_start hone)) hstep x hx).imp_left fun hx => ?_
  refine (State.positions_eq_iff (s.start.pairwise_positions _)).2 fun p => ?_
  rw [hx.boxes p, State.mem_positions_iff]

theorem single_push_of_corridor :
    ∃ (b : Board) (s : System) (x : State), b.Drawn ∧ b.keepers.length = 1 ∧
      s.CompiledFrom b 3 ∧ s.IsPlay [s.start, x] ∧
      x.positions .box ≠ s.start.positions .box ∧
      ∃ cell landing, s.PushedAt b x cell landing := by
  have hb : Board.Drawn ⟨[[.keeper, .box, .goal]], 3, by decide⟩ := ⟨"@$.", by decide, rfl⟩
  obtain ⟨s, hs, henabled, hmoved⟩ :
      ∃ s, compile ⟨[[.keeper, .box, .goal]], 3, by decide⟩ 3 = .ok s ∧ s.enabled s.start ≠ [] ∧
        (s.successor s.start).positions .box ≠ s.start.positions .box :=
    ⟨_, rfl, by decide, by decide⟩
  have hplay : s.IsPlay [s.start, s.successor s.start] :=
    ⟨rfl, List.isChain_pair.2 (fires_successor henabled)⟩
  have hmem : s.successor s.start ∈ [s.start, s.successor s.start] := by simp
  have hpushed := single_push hb (by decide) (.whole hs) hplay hmem
  exact ⟨_, s, _, hb, by decide, .whole hs, hplay, hmoved, hpushed.resolve_left hmoved⟩

end System

end Sokoban
