import Mathlib.Logic.Equiv.Basic
import Sokoban.Proofs.Play.Moved

/-!
# Rules and plays have the symmetries of the grid

A board is mirrored by turning its rows around, flipped by turning the order of its rows around, and
transposed by making its columns the rows. Each of these shows the board in other places, so it has
the rules of the board in these places and the same plays. Only the order of the rules changes, and
with it the run.
-/

namespace Sokoban

/-- Counts below a bound from the other end; what is not below the bound stays. -/
def reflect (n i : Nat) : Nat := if i < n then n - 1 - i else i

theorem reflect_of_lt {n i : Nat} (h : i < n) : reflect n i = n - 1 - i := if_pos h

theorem reflect_lt_iff {n i : Nat} : reflect n i < n ↔ i < n := by
  unfold reflect
  split <;> omega

theorem reflect_reflect (n : Nat) : Function.Involutive (reflect n) := by
  intro i
  unfold reflect
  split
  · rw [if_pos (by omega)]
    omega
  · rfl

theorem getElem?_reverse_reflect {α : Type} (l : List α) (i : Nat) :
    l.reverse[reflect l.length i]? = l[i]? := by
  by_cases h : i < l.length
  · rw [List.getElem?_reverse (reflect_lt_iff.2 h), reflect_of_lt h]
    congr 1
    omega
  · have h' : ¬ reflect l.length i < l.length := fun hlt => h (reflect_lt_iff.1 hlt)
    rw [List.getElem?_eq_none (by rw [List.length_reverse]; omega),
      List.getElem?_eq_none (by omega)]

namespace Board

def mirrored (b : Board) : Board :=
  ⟨b.rows.map List.reverse, b.width, List.forall_mem_map.2 fun row hrow => by
    rw [List.length_reverse, b.rectangular row hrow]⟩

def flipped (b : Board) : Board :=
  ⟨b.rows.reverse, b.width, fun row hrow => b.rectangular row (List.mem_reverse.1 hrow)⟩

def transposed (b : Board) : Board :=
  ⟨(List.range b.width).map fun j => b.rows.map fun row => row.getD j .wall, b.height,
    List.forall_mem_map.2 fun _ _ => List.length_map _⟩

theorem get?_mirrored (b : Board) (i j : Nat) :
    b.mirrored.get? ⟨i, reflect b.width j⟩ = b.get? ⟨i, j⟩ := by
  unfold get? mirrored
  dsimp only
  rw [List.getElem?_map]
  cases hrow : b.rows[i]? with
  | none => rfl
  | some row =>
      have hlength : row.length = b.width := b.rectangular row (List.mem_of_getElem? hrow)
      rw [← hlength]
      exact getElem?_reverse_reflect row j

theorem get?_flipped (b : Board) (i j : Nat) :
    b.flipped.get? ⟨reflect b.height i, j⟩ = b.get? ⟨i, j⟩ := by
  unfold get? flipped height
  dsimp only
  rw [getElem?_reverse_reflect]

theorem get?_transposed (b : Board) (i j : Nat) :
    b.transposed.get? ⟨j, i⟩ = b.get? ⟨i, j⟩ := by
  unfold get? transposed
  dsimp only
  rw [List.getElem?_map]
  by_cases hj : j < b.width
  · rw [List.getElem?_range hj, Option.map_some, Option.bind_some, List.getElem?_map]
    cases hrow : b.rows[i]? with
    | none => rfl
    | some row =>
        have hlength : row.length = b.width := b.rectangular row (List.mem_of_getElem? hrow)
        rw [Option.map_some, Option.bind_some, List.getD_eq_getElem?_getD,
          List.getElem?_eq_getElem (by omega)]
        rfl
  · rw [List.getElem?_eq_none (by rw [List.length_range]; omega)]
    cases hrow : b.rows[i]? with
    | none => rfl
    | some row =>
        have hlength : row.length = b.width := b.rectangular row (List.mem_of_getElem? hrow)
        rw [Option.bind_some, List.getElem?_eq_none (by omega)]
        rfl

end Board

inductive Symmetry where
  | mirror
  | flip
  | transpose
  deriving DecidableEq

namespace Symmetry

def image : Symmetry → Board → Board
  | mirror, b => b.mirrored
  | flip, b => b.flipped
  | transpose, b => b.transposed

def place (b : Board) : Symmetry → Pos → Pos
  | mirror, p => ⟨p.row, reflect b.width p.col⟩
  | flip, p => ⟨reflect b.height p.row, p.col⟩
  | transpose, p => ⟨p.col, p.row⟩

def turn : Symmetry → Direction → Direction
  | mirror, .left => .right
  | mirror, .right => .left
  | mirror, d => d
  | flip, .up => .down
  | flip, .down => .up
  | flip, d => d
  | transpose, .left => .up
  | transpose, .right => .down
  | transpose, .up => .left
  | transpose, .down => .right

theorem place_place (m : Symmetry) (b : Board) : Function.Involutive (m.place b) := by
  intro p
  cases m with
  | mirror => exact congrArg (Pos.mk p.row) (reflect_reflect b.width p.col)
  | flip => exact congrArg (Pos.mk · p.col) (reflect_reflect b.height p.row)
  | transpose => rfl

theorem turn_turn (m : Symmetry) : Function.Involutive m.turn := by
  intro d
  cases m <;> cases d <;> rfl

def gridMap (m : Symmetry) (b : Board) : GridMap :=
  ⟨⟨m.place b, (m.place_place b).injective⟩, (m.turn_turn).toPerm⟩

theorem get?_image (m : Symmetry) (b : Board) (p : Pos) :
    (m.image b).get? (m.place b p) = b.get? p := by
  cases m with
  | mirror => exact b.get?_mirrored p.row p.col
  | flip => exact b.get?_flipped p.row p.col
  | transpose => exact b.get?_transposed p.row p.col

theorem ahead_iff (m : Symmetry) {b : Board} {p q : Pos} {d : Direction} {n : Nat}
    (hp : p.row < b.height ∧ p.col < b.width) (hq : q.row < b.height ∧ q.col < b.width) :
    (m.place b p).Ahead (m.turn d) n (m.place b q) ↔ p.Ahead d n q := by
  have hcols := And.intro (reflect_of_lt hp.2) (reflect_of_lt hq.2)
  have hrows := And.intro (reflect_of_lt hp.1) (reflect_of_lt hq.1)
  constructor
  · rintro ⟨hrow, hcol⟩
    cases m <;> cases d <;> simp only [place, turn, Direction.delta] at hrow hcol <;>
      constructor <;> simp only [Direction.delta] <;> omega
  · rintro ⟨hrow, hcol⟩
    cases m <;> cases d <;> simp only [Direction.delta] at hrow hcol <;>
      constructor <;> simp only [place, turn, Direction.delta] <;> omega

theorem carries (m : Symmetry) (b : Board) : (m.gridMap b).Carries b (m.image b) where
  tile := by
    intro p t _
    have hget : (m.image b).get? ((m.gridMap b).place p) = b.get? p := m.get?_image b p
    rw [hget]
  covers := fun q _ => ⟨m.place b q, m.place_place b q⟩
  ahead := by
    intro p q d n hp hq
    obtain ⟨t, ht, -⟩ := Board.isFree_iff.1 hp
    obtain ⟨u, hu, -⟩ := Board.isFree_iff.1 hq
    exact m.ahead_iff (Board.lt_of_get? ht) (Board.lt_of_get? hu)

theorem fits_image (m : Symmetry) {b : Board} (hb : b.Fits) : (m.image b).Fits := by
  obtain ⟨hheight, hwidth⟩ := hb
  cases m with
  | mirror =>
      refine ⟨?_, hwidth⟩
      simpa [image, Board.mirrored, Board.height] using hheight
  | flip =>
      refine ⟨?_, hwidth⟩
      simpa [image, Board.flipped, Board.height] using hheight
  | transpose =>
      refine ⟨?_, hheight⟩
      simpa [image, Board.transposed, Board.height] using hwidth

end Symmetry

namespace System

/-- The system of an image of a board is the image of its system. -/
theorem compile_image {b : Board} (hb : b.Drawn) (m : Symmetry) (limit : Nat) :
    ∃ s t, compile b limit = .ok s ∧ compile (m.image b) limit = .ok t ∧
      s.MovesTo (m.gridMap b) t ∧ s.PlaysAlong (m.gridMap b) t := by
  obtain ⟨s, t, hs, ht, hmoves⟩ :=
    exists_compile_moved (m.carries b) hb.fits (m.fits_image hb.fits) limit
  exact ⟨s, t, hs, ht, hmoves, hmoves.playsAlong⟩

/-- A push to the right in a corridor is a push downwards in a shaft. -/
theorem compile_image_of_corridor :
    ∃ (b c : Board) (s t : System), b.Drawn ∧ Symmetry.transpose.image b = c ∧ b.width = 3 ∧
      c.width = 1 ∧ compile b 3 = .ok s ∧ compile c 3 = .ok t ∧ s.CanBeWon ∧ t.CanBeWon := by
  have hb : Board.Drawn ⟨[[.keeper, .box, .goal]], 3, by decide⟩ := ⟨"@$.", by decide, rfl⟩
  have himage : Symmetry.transpose.image ⟨[[.keeper, .box, .goal]], 3, by decide⟩ =
      ⟨[[.keeper], [.box], [.goal]], 1, by decide⟩ := rfl
  obtain ⟨s', hs', henabled, hwon⟩ :
      ∃ s, compile ⟨[[.keeper, .box, .goal]], 3, by decide⟩ 3 = .ok s ∧
        s.enabled s.start ≠ [] ∧ s.isWon (s.successor s.start) = true :=
    ⟨_, rfl, by decide, by decide⟩
  obtain ⟨s, t, hs, ht, -, hplays⟩ := compile_image hb .transpose 3
  obtain rfl : s = s' := Except.ok.inj (hs.symm.trans hs')
  have hcan : s.CanBeWon := ⟨_, isPlay_pair henabled, _, by simp, hwon⟩
  exact ⟨_, _, s, t, hb, himage, rfl, rfl, hs, ht, hcan, hplays.won.1 hcan⟩

end System

end Sokoban
