import Mathlib.Data.List.Flatten
import Sokoban.Proofs.Board.OnlyBox
import Sokoban.Proofs.Model.Totality
import Sokoban.Proofs.Play.DirectStep

/-!
# A pair's system has fewer rules than the board with the pair's box alone

The system of a pair leaves the other boxes out at the start, but the cells that they are drawn on
stay impassable. On the board without these boxes the same cells are passable. So both have the same
start and the same goal, and the latter has the rules of the former and more.
-/

namespace Sokoban

/-! ## Compiling the board without the other boxes -/

theorem Scope.ofBoard_keepOnly (b : Board) (kept : Pos) (limit : Nat) :
    ofBoard (b.keepOnly kept) limit = ofBoard b limit := by
  have hcells : (ofBoard (b.keepOnly kept) limit).cells = (ofBoard b limit).cells := by
    apply PosSet.ext
    intro p
    rw [mem_ofBoard_iff, mem_ofBoard_iff, Board.isFree_keepOnly]
  exact congrArg (Scope.mk · limit) hcells

/-- A box that is left out at the start is on no cell of the board without it. -/
theorem Tile.kept_content {kept p : Pos} (h : p ≠ kept) (t : Tile) :
    t.vacated.content?.map (State.kept (some kept) p) =
      t.content?.map (State.kept (some kept) p) := by
  cases t <;> simp [vacated, content?, State.kept, h]

theorem State.initial_keepOnly (b : Board) (kept : Pos) :
    initial (b.keepOnly kept) (some kept) = initial b (some kept) := by
  refine ext_get? (fun p => ?_) rfl
  rw [get?_initial, get?_initial]
  by_cases h : p = kept
  · rw [h, Board.get?_keepOnly_self]
  · rw [Board.get?_keepOnly_of_ne b h]
    cases b.get? p with
    | none => rfl
    | some t => exact Tile.kept_content h t

namespace Board

theorem grid_keepOnly (b : Board) (kept : Pos) : (b.keepOnly kept).grid = b.grid := by
  unfold grid
  rw [height_keepOnly]
  rfl

theorem departures_sublist_keepOnly (b : Board) (kept : Pos) :
    b.departures.Sublist (b.keepOnly kept).departures := by
  have hpassable : b.passable.Sublist (b.keepOnly kept).passable := by
    rw [passable_eq_filter_grid, passable_eq_filter_grid, grid_keepOnly]
    exact List.monotone_filter_right b.grid fun _ hp => isPassable_keepOnly hp
  exact hpassable.flatMap _

theorem legalFrom_sublist_keepOnly (b : Board) (kept : Pos) (scope : Scope) (p : Pos)
    (d : Direction) : (b.legalFrom scope p d).Sublist ((b.keepOnly kept).legalFrom scope p d) := by
  unfold legalFrom
  simp only [ahead_keepOnly, isFree_keepOnly]
  cases b.ahead p d 1 with
  | none => exact List.Sublist.refl _
  | some target =>
      dsimp only
      by_cases hfree : b.isFree target = true
      · rw [if_pos hfree, if_pos hfree]
        cases b.ahead p d 2 with
        | none => exact List.Sublist.refl _
        | some beyond =>
            dsimp only
            by_cases hpassable : b.isPassable beyond = true
            · rw [if_pos hpassable, if_pos (isPassable_keepOnly hpassable)]
            · -- without the other boxes there may be a push where there was none
              rw [if_neg hpassable]
              split
              · simp
              · exact List.Sublist.refl _
      · rw [if_neg hfree, if_neg hfree]

theorem legal_sublist_keepOnly (b : Board) (kept : Pos) (scope : Scope) :
    (b.departures.flatMap fun c => b.legalFrom scope c.1 c.2).Sublist
      ((b.keepOnly kept).departures.flatMap fun c => (b.keepOnly kept).legalFrom scope c.1 c.2) :=
  (List.Sublist.flatMap_right _ fun c _ => b.legalFrom_sublist_keepOnly kept scope c.1 c.2).trans
    ((b.departures_sublist_keepOnly kept).flatMap _)

end Board

namespace System

variable {s t : System} {b : Board} {limit : Nat} {pair : Pair} {goal : Goal}

theorem IsPlay.mono {play : List State} (h : s.IsPlay play) (hstart : s.start = t.start)
    (hrules : ∀ r ∈ s.rules, r ∈ t.rules) : t.IsPlay play where
  start := by
    rw [← hstart]
    exact h.start
  fires := by
    refine h.fires.imp ?_
    intro x y hxy
    obtain ⟨r, hr, hfire⟩ := hxy
    exact ⟨r, hrules r hr, hfire⟩

/-- Some play comes to a state in which the goal is reached. -/
def CanBeWon (s : System) : Prop := ∃ play, s.IsPlay play ∧ ∃ x ∈ play, s.isWon x = true

/-- A system is another one with fewer rules: everything else is the same, and so all of its plays
are plays of the other one. -/
structure Restricts (s t : System) : Prop where
  scope : s.scope = t.scope
  start : s.start = t.start
  initial : s.initial = t.initial
  goal : s.goal = t.goal
  property : s.property = t.property
  rules : s.rules.Sublist t.rules
  play : ∀ play, s.IsPlay play → t.IsPlay play
  won : s.CanBeWon → t.CanBeWon

theorem Restricts.of_rules (hscope : s.scope = t.scope) (hstart : s.start = t.start)
    (hinitial : s.initial = t.initial) (hgoal : s.goal = t.goal)
    (hrules : s.rules.Sublist t.rules) : s.Restricts t where
  scope := hscope
  start := hstart
  initial := hinitial
  goal := hgoal
  property := by
    unfold System.property
    rw [hgoal, hscope]
  rules := hrules
  play := fun _ hplay => hplay.mono hstart fun _ hr => hrules.subset hr
  won := by
    intro hwon
    obtain ⟨play, hplay, x, hx, hxwon⟩ := hwon
    refine ⟨play, hplay.mono hstart fun _ hr => hrules.subset hr, x, hx, ?_⟩
    rw [isWon, ← hgoal]
    exact hxwon

theorem BuiltFrom.restricts {kept : Pos} (hs : s.BuiltFrom b limit (some kept) goal)
    (ht : t.BuiltFrom (b.keepOnly kept) limit (some kept) goal) (hb : b.Fits) : s.Restricts t := by
  have hscope : s.scope = t.scope := by
    rw [hs.scope, ht.scope, Scope.ofBoard_keepOnly]
  have hstart : s.start = t.start := by
    rw [hs.start, ht.start, State.initial_keepOnly]
  have hinitial : s.initial = t.initial := by
    have hformula := hs.initial
    rw [hscope, hstart, ht.initial] at hformula
    exact (Except.ok.inj hformula).symm
  have hrules : s.rules.Sublist t.rules := by
    rw [hs.rules_eq hb, ht.rules_eq (hb.keepOnly kept), Scope.ofBoard_keepOnly]
    exact b.legal_sublist_keepOnly kept _
  exact .of_rules hscope hstart hinitial (hs.goal.trans ht.goal.symm) hrules

/-- The system of a pair is that of the same pair on the board without the other boxes, with fewer
rules. -/
theorem restricts_keepOnly (hb : b.Drawn) (hs : compilePair b pair limit = .ok s) :
    ∃ t, compilePair (b.keepOnly pair.boxed) pair limit = .ok t ∧ s.Restricts t := by
  obtain ⟨hboxed, hbuild⟩ := build_of_compilePair hs
  obtain ⟨hsbuilt, hcells⟩ := builtFrom_of_build hb.fits hbuild
  have hfits := hb.fits.keepOnly pair.boxed
  have hgoal : (b.keepOnly pair.boxed).isFree pair.goal = true := by
    rw [Board.isFree_keepOnly, ← Scope.mem_ofBoard_iff, ← hsbuilt.scope]
    exact hcells pair.goal (by simp [Goal.cells])
  obtain ⟨t, ht⟩ := exists_compilePair hfits (Board.mem_boxes_keepOnly hboxed) hgoal limit
  have htbuilt := builtFrom_of_compilePair hfits ht
  exact ⟨t, ht, hsbuilt.restricts htbuilt hb.fits⟩

theorem restricts_keepOnly_of_corridor :
    ∃ (b : Board) (s t : System), b.Drawn ∧ compilePair b ⟨⟨0, 1⟩, ⟨0, 2⟩⟩ 3 = .ok s ∧
      compilePair (b.keepOnly ⟨0, 1⟩) ⟨⟨0, 1⟩, ⟨0, 2⟩⟩ 3 = .ok t ∧ s.rules ≠ t.rules ∧
      s.CanBeWon ∧ s.Restricts t ∧ t.CanBeWon := by
  have hb : Board.Drawn ⟨[[.keeper, .box, .floor, .box]], 4, by decide⟩ :=
    ⟨"@$_$", by decide, rfl⟩
  obtain ⟨s, t', hs, ht', hrules, henabled, hwon⟩ :
      ∃ s t, compilePair ⟨[[.keeper, .box, .floor, .box]], 4, by decide⟩
          ⟨⟨0, 1⟩, ⟨0, 2⟩⟩ 3 = .ok s ∧
        compilePair (Board.keepOnly ⟨[[.keeper, .box, .floor, .box]], 4, by decide⟩ ⟨0, 1⟩)
          ⟨⟨0, 1⟩, ⟨0, 2⟩⟩ 3 = .ok t ∧
        s.rules ≠ t.rules ∧ s.enabled s.start ≠ [] ∧ s.isWon (s.successor s.start) = true :=
    ⟨_, _, rfl, rfl, by decide, by decide, by decide⟩
  obtain ⟨t, ht, hrestricts⟩ := restricts_keepOnly hb hs
  obtain rfl : t = t' := Except.ok.inj (ht.symm.trans ht')
  have hplay : s.IsPlay [s.start, s.successor s.start] := isPlay_pair henabled
  have hcan : s.CanBeWon := ⟨_, hplay, _, by simp, hwon⟩
  exact ⟨_, s, t, hb, hs, ht, hrules, hcan, hrestricts, hrestricts.won hcan⟩

end System

end Sokoban
