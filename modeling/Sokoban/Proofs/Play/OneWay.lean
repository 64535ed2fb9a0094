import Sokoban.Proofs.Model.Winning
import Sokoban.Proofs.Play.Basic

/-!
# Cells drawn with a box are one-way

A rule may step onto a cell that is drawn with a box, but it neither starts from there nor pushes a
box there. So what such a cell holds changes once at most, and then to a keeper who never leaves.
A goal on such a cell is out of reach of every other box.
-/

namespace Sokoban

namespace System

/-- A cell that changes once at most, from a box or from nothing to a keeper: by each rule, and so
in the course of each play. -/
structure OneWay (s : System) (p : Pos) : Prop where
  fire : ∀ r ∈ s.rules, ∀ x y, r.fire x = some y →
    y.get? p = x.get? p ∨
      (y.get? p = some .keeper ∧ (x.get? p = some .box ∨ x.get? p = some .empty))
  noBox : ∀ play, s.IsPlay play → ∀ (i j : Nat) (x y : State), i ≤ j →
    play[i]? = some x → play[j]? = some y → x.get? p ≠ some .box → y.get? p ≠ some .box
  keeper : ∀ play, s.IsPlay play → ∀ (i j : Nat) (x y : State), i ≤ j →
    play[i]? = some x → play[j]? = some y → x.get? p = some .keeper → y.get? p = some .keeper

variable {s : System} {b : Board} {limit : Nat} {keep : Option Pos} {goal : Goal} {p : Pos}
  {x y : State}

theorem BuiltFrom.noBox_of_fires (h : s.BuiltFrom b limit keep goal) (hb : b.Fits)
    (hp : p ∈ b.boxes) (hx : x.get? p ≠ some .box) (hxy : s.Fires x y) :
    y.get? p ≠ some .box := by
  rcases h.fires_of_mem_boxes hb hp hxy with hsame | ⟨hkeeper, -⟩
  · rw [hsame]
    exact hx
  · simp [hkeeper]

theorem BuiltFrom.keeper_of_fires (h : s.BuiltFrom b limit keep goal) (hb : b.Fits)
    (hp : p ∈ b.boxes) (hx : x.get? p = some .keeper) (hxy : s.Fires x y) :
    y.get? p = some .keeper := by
  rcases h.fires_of_mem_boxes hb hp hxy with hsame | ⟨hkeeper, -⟩
  · rw [hsame]
    exact hx
  · exact hkeeper

theorem BuiltFrom.oneWay (h : s.BuiltFrom b limit keep goal) (hb : b.Fits) (hp : p ∈ b.boxes) :
    s.OneWay p where
  fire := fun _ hr _ _ hfire => (h.legal hb hr).fire_of_mem_boxes hp hfire
  noBox := fun _ hplay _ _ _ _ hij hx hy =>
    hplay.of_getElem? (P := fun x => x.get? p ≠ some .box)
      (fun _ _ hx hxy => h.noBox_of_fires hb hp hx hxy) hij hx hy
  keeper := fun _ hplay _ _ _ _ hij hx hy =>
    hplay.of_getElem? (P := fun x => x.get? p = some .keeper)
      (fun _ _ hx hxy => h.keeper_of_fires hb hp hx hxy) hij hx hy

/-- The cells of the boxes that are left out start empty, and no box ever comes there. -/
theorem BuiltFrom.noBox_of_play {kept : Pos} (h : s.BuiltFrom b limit (some kept) goal)
    (hb : b.Fits) (hp : p ∈ b.boxes) (hne : p ≠ kept) {play : List State} (hplay : s.IsPlay play)
    (hx : x ∈ play) : x.get? p ≠ some .box := by
  refine hplay.forall_mem (P := fun x => x.get? p ≠ some .box) ?_
    (fun _ _ hy hyz => h.noBox_of_fires hb hp hy hyz) x hx
  rw [h.start]
  intro hbox
  exact hne ((State.get?_initial_box_iff.1 hbox).2 kept rfl)

/-- Every cell that is drawn with a box is one-way, and a pair whose goal is on such a cell, but on
that of another box, is never won. -/
theorem oneWay_of_mem_boxes (hb : b.Drawn) (limit : Nat) :
    (∀ s : System, s.CompiledFrom b limit → ∀ p ∈ b.boxes, s.OneWay p) ∧
      ∀ (pair : Pair) (s : System), compilePair b pair limit = .ok s → pair.goal ∈ b.boxes →
        pair.goal ≠ pair.boxed → ∀ play, s.IsPlay play → ∀ x ∈ play, s.isWon x = false := by
  constructor
  · intro s hs p hp
    obtain ⟨keep, goal, h, -⟩ := hs.exists_builtFrom hb.fits
    exact h.oneWay hb.fits hp
  · intro pair s hs hgoal hne play hplay x hx
    have h := builtFrom_of_compilePair hb.fits hs
    have hnoBox : x.get? pair.goal ≠ some .box := h.noBox_of_play hb.fits hgoal hne hplay hx
    rw [Bool.eq_false_iff]
    intro hwon
    rw [isWon, h.goal, Goal.isWon_iff] at hwon
    exact hnoBox (hwon pair.goal (by simp [Goal.cells]))

theorem oneWay_of_corridor :
    ∃ (b : Board) (s t : System) (x : State), b.Drawn ∧ s.CompiledFrom b 3 ∧
      (⟨0, 1⟩ : Pos) ∈ b.boxes ∧ s.IsPlay [s.start, x] ∧ s.start.get? ⟨0, 1⟩ = some .box ∧
      x.get? ⟨0, 1⟩ = some .keeper ∧ s.OneWay ⟨0, 1⟩ ∧
      compilePair b ⟨⟨0, 1⟩, ⟨0, 3⟩⟩ 3 = .ok t ∧ (⟨0, 3⟩ : Pos) ∈ b.boxes ∧
      t.enabled t.start ≠ [] ∧ ∀ play, t.IsPlay play → ∀ y ∈ play, t.isWon y = false := by
  have hb : Board.Drawn ⟨[[.keeper, .box, .floor, .boxOnGoal]], 4, by decide⟩ :=
    ⟨"@$_*", by decide, rfl⟩
  obtain ⟨s, hs, henabled, hbefore, hafter⟩ :
      ∃ s, compile ⟨[[.keeper, .box, .floor, .boxOnGoal]], 4, by decide⟩ 3 = .ok s ∧
        s.enabled s.start ≠ [] ∧ s.start.get? ⟨0, 1⟩ = some .box ∧
        (s.successor s.start).get? ⟨0, 1⟩ = some .keeper :=
    ⟨_, rfl, by decide, by decide, by decide⟩
  obtain ⟨t, ht, htenabled⟩ :
      ∃ t, compilePair ⟨[[.keeper, .box, .floor, .boxOnGoal]], 4, by decide⟩
        ⟨⟨0, 1⟩, ⟨0, 3⟩⟩ 3 = .ok t ∧ t.enabled t.start ≠ [] := ⟨_, rfl, by decide⟩
  have hplay : s.IsPlay [s.start, s.successor s.start] := isPlay_pair henabled
  obtain ⟨honeWay, hnever⟩ := oneWay_of_mem_boxes hb 3
  exact ⟨_, s, t, _, hb, .whole hs, by decide, hplay, hbefore, hafter,
    honeWay s (.whole hs) _ (by decide), ht, by decide, htenabled,
    hnever _ t ht (by decide) (by decide)⟩

end System

end Sokoban
