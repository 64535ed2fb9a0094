import Mathlib.Data.Finset.Card
import Sokoban.Proofs.Play.Basic

/-!
# What a board must have to be won

Boxes and keepers are neither added nor lost, and a cell that is drawn with a box holds a box or a
keeper from then on. So each box that has left its cell has a keeper in its place, and a board with
too few boxes, or with too few keepers for the boxes to move, is never won.
-/

namespace Sokoban

namespace State

variable {x : State} {c : Content}

/-! ## Counting the cells of a state -/

def cellsOf (x : State) (c : Content) : Finset Pos := (x.positions c).toFinset

theorem mem_cellsOf {p : Pos} : p ∈ x.cellsOf c ↔ x.get? p = some c := by
  rw [cellsOf, List.mem_toFinset, mem_positions_iff]

theorem card_cellsOf (x : State) (c : Content) : (x.cellsOf c).card = x.count c :=
  List.toFinset_card_of_nodup (x.nodup_positions c)

theorem length_le_count {l : List Pos} (hl : l.Nodup)
    (h : ∀ p ∈ l, x.get? p = some c) : l.length ≤ x.count c := by
  rw [← List.toFinset_card_of_nodup hl, ← card_cellsOf]
  refine Finset.card_le_card fun p hp => ?_
  exact mem_cellsOf.2 (h p (List.mem_toFinset.1 hp))

/-- As many cells have got a box as have lost theirs, and each of these holds a keeper. -/
theorem length_filter_le_count {l boxes : List Pos} (hl : l.Nodup) (hboxes : boxes.Nodup)
    (h : ∀ p ∈ l, x.get? p = some .box) (hcount : x.count .box = boxes.length)
    (hheld : ∀ p ∈ boxes, x.get? p = some .box ∨ x.get? p = some .keeper) :
    (l.filter fun p => p ∉ boxes).length ≤ x.count .keeper := by
  have hcard : (x.cellsOf .box).card = boxes.toFinset.card := by
    rw [card_cellsOf, hcount, List.toFinset_card_of_nodup hboxes]
  have hgained : (l.filter fun p => p ∉ boxes).toFinset ⊆ x.cellsOf .box \ boxes.toFinset := by
    intro p hp
    rw [List.mem_toFinset, List.mem_filter, decide_eq_true_iff] at hp
    rw [Finset.mem_sdiff, mem_cellsOf, List.mem_toFinset]
    exact ⟨h p hp.1, hp.2⟩
  have hlost : boxes.toFinset \ x.cellsOf .box ⊆ x.cellsOf .keeper := by
    intro p hp
    rw [Finset.mem_sdiff, mem_cellsOf, List.mem_toFinset] at hp
    exact mem_cellsOf.2 ((hheld p hp.1).resolve_left hp.2)
  -- both differences are equally large, since there are as many boxes as at the start
  calc (l.filter fun p => p ∉ boxes).length
      = (l.filter fun p => p ∉ boxes).toFinset.card :=
        (List.toFinset_card_of_nodup (hl.filter _)).symm
    _ ≤ (x.cellsOf .box \ boxes.toFinset).card := Finset.card_le_card hgained
    _ = (boxes.toFinset \ x.cellsOf .box).card := Finset.card_sdiff_comm hcard
    _ ≤ (x.cellsOf .keeper).card := Finset.card_le_card hlost
    _ = x.count .keeper := card_cellsOf x .keeper

end State

namespace System

variable {s : System} {b : Board} {limit : Nat} {keep : Option Pos} {goal : Goal} {x : State}

/-! ## What a play keeps -/

/-- A cell that is drawn with a box always holds a box or a keeper. -/
theorem BuiltFrom.box_or_keeper (h : s.BuiltFrom b limit none goal) (hb : b.Fits)
    {play : List State} (hplay : s.IsPlay play) (hx : x ∈ play) :
    ∀ p ∈ b.boxes, x.get? p = some .box ∨ x.get? p = some .keeper := by
  refine hplay.forall_mem (P := fun x => ∀ p ∈ b.boxes, x.get? p = some .box ∨
    x.get? p = some .keeper) (fun p hp => .inl ?_) ?_ x hx
  · rw [h.start, State.get?_initial_box_iff]
    exact ⟨hp, fun _ hkeep => by cases hkeep⟩
  · intro y z hy hyz p hp
    rcases h.fires_of_mem_boxes hb hp hyz with hsame | ⟨hkeeper, -⟩
    · rw [hsame]
      exact hy p hp
    · exact .inr hkeeper

theorem BuiltFrom.count_box (h : s.BuiltFrom b limit none goal) (hb : b.Fits)
    {play : List State} (hplay : s.IsPlay play) (hx : x ∈ play) :
    x.count .box = b.boxes.length := by
  rw [h.count_eq hb hplay hx, h.start, State.count, State.positions_initial_box]

theorem BuiltFrom.count_keeper (h : s.BuiltFrom b limit keep goal) (hb : b.Fits)
    {play : List State} (hplay : s.IsPlay play) (hx : x ∈ play) :
    x.count .keeper = b.keepers.length := by
  rw [h.count_eq hb hplay hx, h.start, State.count, State.positions_initial_keeper]

/-! ## Winning -/

/-- If a board can be won, then it has a box for each goal, and a keeper for each goal on which no
box is drawn. -/
theorem goals_le_of_isWon {play : List State} (hb : b.Drawn) (hs : compile b limit = .ok s)
    (hplay : s.IsPlay play) (hx : x ∈ play) (hwon : s.isWon x = true) :
    b.goals.length ≤ b.boxes.length ∧
      (b.goals.filter fun p => p ∉ b.boxes).length ≤ b.keepers.length := by
  obtain ⟨h, -⟩ := builtFrom_of_build hb.fits hs
  have hgoals : ∀ p ∈ b.goals, x.get? p = some .box := by
    unfold isWon Goal.isWon at hwon
    rw [h.goal] at hwon
    simpa [Goal.ofBoard, Goal.cells] using hwon
  have hboxes := h.count_box hb.fits hplay hx
  constructor
  · rw [← hboxes]
    exact State.length_le_count (b.nodup_positions _) hgoals
  · rw [← h.count_keeper hb.fits hplay hx]
    exact State.length_filter_le_count (b.nodup_positions _) (b.nodup_positions _) hgoals hboxes
      (h.box_or_keeper hb.fits hplay hx)

theorem goals_le_of_corridor :
    ∃ (b : Board) (s : System) (x : State), b.Drawn ∧ compile b 3 = .ok s ∧
      s.IsPlay [s.start, x] ∧ s.isWon x = true ∧ b.goals.length ≤ b.boxes.length ∧
      (b.goals.filter fun p => p ∉ b.boxes).length ≤ b.keepers.length := by
  have hb : Board.Drawn ⟨[[.keeper, .box, .goal]], 3, by decide⟩ := ⟨"@$.", by decide, rfl⟩
  obtain ⟨s, hs, henabled, hwon⟩ :
      ∃ s, compile ⟨[[.keeper, .box, .goal]], 3, by decide⟩ 3 = .ok s ∧ s.enabled s.start ≠ [] ∧
        s.isWon (s.successor s.start) = true := ⟨_, rfl, by decide, by decide⟩
  have hplay : s.IsPlay [s.start, s.successor s.start] :=
    ⟨rfl, List.isChain_pair.2 (fires_successor henabled)⟩
  have hmem : s.successor s.start ∈ [s.start, s.successor s.start] := by simp
  exact ⟨_, s, _, hb, hs, hplay, hwon, goals_le_of_isWon hb hs hplay hmem hwon⟩

end System

end Sokoban
