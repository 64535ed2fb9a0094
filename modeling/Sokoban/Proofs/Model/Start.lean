import Sokoban.Model.State
import Sokoban.Proofs.Board.Cells
import Sokoban.Proofs.Model.Firing

/-!
# The start of a play

The start has the cells of the scope, every keeper of the drawing, and the boxes of the drawing, or
only the one that is kept.
-/

namespace Sokoban

theorem Scope.mem_ofBoard_iff {b : Board} {limit : Nat} {p : Pos} :
    p ∈ (Scope.ofBoard b limit).cells ↔ b.isFree p = true := by
  have hmem : p ∈ (Scope.ofBoard b limit).cells ↔ p ∈ b.positions fun t => !t.isWall :=
    PosSet.mem_ofList
  rw [hmem, Board.mem_positions_iff, Board.isFree_iff]
  simp

namespace State

/-- What a content of the drawing is at the start: if one box is kept, the others are left out. -/
def kept (keep : Option Pos) (p : Pos) (c : Content) : Content :=
  match keep with
  | some q => if c = .box ∧ p ≠ q then .empty else c
  | none => c

theorem kept_eq_keeper_iff {keep : Option Pos} {p : Pos} {c : Content} :
    kept keep p c = .keeper ↔ c = .keeper := by
  unfold kept
  cases keep with
  | none => rfl
  | some q =>
      dsimp only
      split
      · rename_i h
        simp [h.1]
      · rfl

theorem kept_eq_box_iff {keep : Option Pos} {p : Pos} {c : Content} :
    kept keep p c = .box ↔ c = .box ∧ ∀ q, keep = some q → p = q := by
  unfold kept
  cases keep with
  | none => simp
  | some q =>
      dsimp only
      split
      · rename_i h
        simp [h.2]
      · rename_i h
        simp only [Option.some.injEq, forall_eq']
        refine ⟨fun hc => ⟨hc, ?_⟩, fun hc => hc.1⟩
        exact Decidable.byContradiction fun hp => h ⟨hc, hp⟩

theorem get?_initial_eq_some_iff {b : Board} {keep : Option Pos} {p : Pos} {c : Content} :
    (initial b keep).get? p = some c ↔
      ∃ t d, b.get? p = some t ∧ t.content? = some d ∧ kept keep p d = c := by
  let entry : Pos × Tile → Option (Pos × Content) := fun e =>
    e.2.content?.map fun d => (e.1, kept keep e.1 d)
  have hstart : (initial b keep).cells = PosMap.ofList (b.cells.filterMap entry) := by
    unfold initial
    dsimp only
    congr 2
    funext e
    refine congrArg (fun f => e.2.content?.map f) ?_
    funext d
    unfold kept
    cases keep with
    | none => rfl
    | some q => exact (apply_ite (Prod.mk e.1) _ _ _).symm
  have hsorted : (b.cells.filterMap entry).Pairwise fun d e => d.1 < e.1 := by
    refine b.pairwise_cells.filterMap entry ?_
    intro x y hxy d hd e he
    obtain ⟨_, -, rfl⟩ := Option.map_eq_some_iff.1 hd
    obtain ⟨_, -, rfl⟩ := Option.map_eq_some_iff.1 he
    exact hxy
  unfold get?
  rw [hstart, PosMap.get?_ofList_eq_some_iff hsorted, List.mem_filterMap]
  constructor
  · rintro ⟨⟨q, t⟩, hq, h⟩
    obtain ⟨d, hd, hentry⟩ := Option.map_eq_some_iff.1 h
    obtain ⟨rfl, rfl⟩ := Prod.mk.inj hentry
    exact ⟨t, d, Board.mem_cells_iff.1 hq, hd, rfl⟩
  · rintro ⟨t, d, ht, hd, rfl⟩
    exact ⟨(p, t), Board.mem_cells_iff.2 ht, Option.map_eq_some_iff.2 ⟨d, hd, rfl⟩⟩

theorem get?_initial (b : Board) (keep : Option Pos) (p : Pos) :
    (initial b keep).get? p = (b.get? p).bind fun t => t.content?.map (kept keep p) := by
  apply Option.ext
  intro c
  rw [get?_initial_eq_some_iff]
  simp only [Option.bind_eq_some_iff, Option.map_eq_some_iff]
  constructor
  · intro h
    obtain ⟨t, d, ht, hd, hc⟩ := h
    exact ⟨t, ht, d, hd, hc⟩
  · intro h
    obtain ⟨t, ht, d, hd, hc⟩ := h
    exact ⟨t, d, ht, hd, hc⟩

theorem keys_initial (b : Board) (keep : Option Pos) (limit : Nat) :
    (initial b keep).cells.keys = (Scope.ofBoard b limit).cells := by
  apply PosSet.ext
  intro p
  rw [mem_keys_iff, Scope.mem_ofBoard_iff, Board.isFree_iff]
  simp only [get?_initial_eq_some_iff]
  constructor
  · rintro ⟨_, t, d, ht, hd, -⟩
    refine ⟨t, ht, ?_⟩
    cases t <;> first | rfl | cases hd
  · rintro ⟨t, ht, hwall⟩
    have hd : ∃ d, t.content? = some d := by
      cases t <;> first | exact ⟨_, rfl⟩ | cases hwall
    obtain ⟨d, hd⟩ := hd
    exact ⟨_, t, d, ht, hd, rfl⟩

theorem get?_initial_keeper_iff {b : Board} {keep : Option Pos} {p : Pos} :
    (initial b keep).get? p = some .keeper ↔ p ∈ b.keepers := by
  rw [get?_initial_eq_some_iff, Board.keepers, Board.mem_positions_iff]
  simp only [kept_eq_keeper_iff]
  constructor
  · rintro ⟨t, d, ht, hd, rfl⟩
    refine ⟨t, ht, ?_⟩
    cases t <;> first | rfl | cases hd
  · rintro ⟨t, ht, hk⟩
    refine ⟨t, .keeper, ht, ?_, rfl⟩
    cases t <;> first | rfl | cases hk

theorem get?_initial_box_iff {b : Board} {keep : Option Pos} {p : Pos} :
    (initial b keep).get? p = some .box ↔ p ∈ b.boxes ∧ ∀ q, keep = some q → p = q := by
  rw [get?_initial_eq_some_iff, Board.boxes, Board.mem_positions_iff]
  simp only [kept_eq_box_iff]
  constructor
  · rintro ⟨t, d, ht, hd, rfl, hkeep⟩
    refine ⟨⟨t, ht, ?_⟩, hkeep⟩
    cases t <;> first | rfl | cases hd
  · rintro ⟨⟨t, ht, hbox⟩, hkeep⟩
    refine ⟨t, .box, ht, ?_, rfl, hkeep⟩
    cases t <;> first | rfl | cases hbox

theorem positions_initial_keeper (b : Board) (keep : Option Pos) :
    (initial b keep).positions .keeper = b.keepers :=
  (positions_eq_iff (b.pairwise_positions _)).2 fun _ => get?_initial_keeper_iff

theorem positions_initial_box (b : Board) : (initial b none).positions .box = b.boxes := by
  refine (positions_eq_iff (b.pairwise_positions _)).2 fun p => ?_
  rw [get?_initial_box_iff]
  exact and_iff_left fun _ h => by cases h

theorem positions_initial_kept {b : Board} {p : Pos} (hp : p ∈ b.boxes) :
    (initial b (some p)).positions .box = [p] := by
  refine (positions_eq_iff (List.pairwise_singleton _ p)).2 fun q => ?_
  rw [get?_initial_box_iff, List.mem_singleton]
  constructor
  · intro hq
    exact hq.2 p rfl
  · rintro rfl
    exact ⟨hp, fun r hr => Option.some.inj hr⟩

end State

end Sokoban
