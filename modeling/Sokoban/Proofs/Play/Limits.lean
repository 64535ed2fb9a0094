import Sokoban.Proofs.Play.DirectStep
import Sokoban.Proofs.Play.Settling

/-!
# One board under two limits

The limit decides when a run ends, and nothing else. So the run under a smaller limit is the run
under a larger one up to the smaller limit, where it stands still.
-/

namespace Sokoban

theorem Board.directStep_eq_of_lt {b : Board} {m n : Nat} {x : State} (hm : x.steps < m)
    (hn : x.steps < n) : b.directStep m x = b.directStep n x := by
  unfold directStep
  rw [if_neg (Nat.not_le.2 hm), if_neg (Nat.not_le.2 hn)]

namespace System

/-- Two systems that are compiled from one board under two limits, both for the whole board or both
for the same pair. -/
inductive SameTask (b : Board) (m n : Nat) (s t : System) : Prop
  | whole (hs : compile b m = .ok s) (ht : compile b n = .ok t)
  | pair (p : Pair) (hs : compilePair b p m = .ok s) (ht : compilePair b p n = .ok t)

variable {s t : System} {b : Board} {m n i : Nat} {keep : Option Pos} {goal : Goal}

theorem SameTask.exists_builtFrom (h : SameTask b m n s t) (hb : b.Fits) :
    ∃ keep goal, s.BuiltFrom b m keep goal ∧ t.BuiltFrom b n keep goal := by
  cases h with
  | whole hs ht => exact ⟨_, _, (builtFrom_of_build hb hs).1, (builtFrom_of_build hb ht).1⟩
  | pair p hs ht =>
      exact ⟨_, _, builtFrom_of_compilePair hb hs, builtFrom_of_compilePair hb ht⟩

theorem BuiltFrom.steps_stateAt_le (h : s.BuiltFrom b m keep goal) (hb : b.Fits) (i : Nat) :
    (s.stateAt i).steps ≤ i := by
  obtain ⟨k, -, hsettles⟩ := h.exists_settlesAt hb
  rw [hsettles.steps]
  exact Nat.min_le_left i k

theorem BuiltFrom.stateAt_of_limit_le (h : s.BuiltFrom b m keep goal) (hb : b.Fits) (hi : m ≤ i) :
    s.stateAt i = s.stateAt m := by
  obtain ⟨k, hk, hsettles⟩ := h.exists_settlesAt hb
  rw [hsettles.still i (Nat.le_trans hk hi), hsettles.still m hk]

/-- As long as the smaller limit is not reached, both runs make the same steps. -/
theorem BuiltFrom.stateAt_eq_of_le (hs : s.BuiltFrom b m keep goal)
    (ht : t.BuiltFrom b n keep goal) (hb : b.Fits) (hmn : m ≤ n) (hi : i ≤ m) :
    s.stateAt i = t.stateAt i := by
  induction i with
  | zero =>
      show s.start = t.start
      rw [hs.start, ht.start]
  | succ i ih =>
      have hsame : s.stateAt i = t.stateAt i := ih (by omega)
      have hsteps : (s.stateAt i).steps ≤ i := hs.steps_stateAt_le hb i
      rw [stateAt_succ, stateAt_succ, ← hsame, hs.successor_eq_direct hb,
        ht.successor_eq_direct hb]
      exact Board.directStep_eq_of_lt (by omega) (by omega)

theorem BuiltFrom.stateAt_eq_min (hs : s.BuiltFrom b m keep goal) (ht : t.BuiltFrom b n keep goal)
    (hb : b.Fits) (hmn : m ≤ n) (i : Nat) : s.stateAt i = t.stateAt (min i m) := by
  rcases Nat.le_total i m with him | hmi
  · rw [Nat.min_eq_left him]
    exact hs.stateAt_eq_of_le ht hb hmn him
  · rw [Nat.min_eq_right hmi, hs.stateAt_of_limit_le hb hmi]
    exact hs.stateAt_eq_of_le ht hb hmn (Nat.le_refl m)

/-- The run of one system is the run of another up to a limit, and stands still from there on. -/
structure CutAt (s t : System) (limit : Nat) : Prop where
  state : ∀ i, s.stateAt i = t.stateAt (min i limit)
  trace : ∀ len len' states more, s.trace len = .ok states → t.trace len' = .ok more →
    ∀ i ≤ len, min i limit ≤ len' → states[i]? = more[min i limit]?
  won : (∃ i, s.isWon (s.stateAt i) = true) → ∃ i, t.isWon (t.stateAt i) = true

/-- A larger limit only lets the run go on. -/
theorem cutAt_of_limit_le (hb : b.Drawn) (hmn : m ≤ n) (h : SameTask b m n s t) : s.CutAt t m := by
  obtain ⟨keep, goal, hs, ht⟩ := h.exists_builtFrom hb.fits
  have hstate := hs.stateAt_eq_min ht hb.fits hmn
  refine ⟨hstate, ?_, ?_⟩
  · intro len len' states more hstates hmore i hi hmin
    rw [trace_getElem? hstates hi, trace_getElem? hmore hmin, hstate i]
  · intro hwon
    obtain ⟨i, hi⟩ := hwon
    refine ⟨min i m, ?_⟩
    rw [isWon, hs.goal, hstate i] at hi
    rw [isWon, ht.goal, hi]

theorem cutAt_of_corridor :
    ∃ (b : Board) (s t : System), b.Drawn ∧ 1 ≤ 3 ∧ SameTask b 1 3 s t ∧
      t.stateAt 2 ≠ t.stateAt 1 ∧ s.stateAt 2 = t.stateAt 1 ∧
      ∃ i, t.isWon (t.stateAt i) = true := by
  have hb : Board.Drawn ⟨[[.keeper, .box, .goal], [.keeper, .floor, .floor]], 3, by decide⟩ :=
    ⟨"@$.\n@__", by decide, rfl⟩
  obtain ⟨s, hs, hwon⟩ :
      ∃ s, compile ⟨[[.keeper, .box, .goal], [.keeper, .floor, .floor]], 3, by decide⟩ 1 = .ok s ∧
        s.isWon (s.stateAt 1) = true := ⟨_, rfl, by decide⟩
  obtain ⟨t, ht, hmoves⟩ :
      ∃ t, compile ⟨[[.keeper, .box, .goal], [.keeper, .floor, .floor]], 3, by decide⟩ 3 = .ok t ∧
        t.stateAt 2 ≠ t.stateAt 1 := ⟨_, rfl, by decide⟩
  have hcut : s.CutAt t 1 := cutAt_of_limit_le hb (by decide) (.whole hs ht)
  exact ⟨_, s, t, hb, by decide, .whole hs ht, hmoves, hcut.state 2, hcut.won ⟨1, hwon⟩⟩

end System

end Sokoban
