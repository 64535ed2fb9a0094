import Mathlib.Data.Nat.Find
import Sokoban.Proofs.Play.Successor

/-!
# The run settles

Each rule counts a step, and no rule is enabled from the limit on. So the run goes through pairwise
different states until no rule is enabled any more, which is after as many steps as the limit at
the latest, and then it stands still.
-/

namespace Sokoban.System

variable {s : System} {b : Board} {limit : Nat} {keep : Option Pos} {goal : Goal} {x y : State}

theorem Fires.steps_eq (h : s.Fires x y) : y.steps = x.steps + 1 := by
  obtain ⟨r, -, hfire⟩ := h
  obtain ⟨-, rfl⟩ := Rule.fire_eq_some_iff.1 hfire
  exact r.steps_apply x

theorem BuiltFrom.steps_start (h : s.BuiltFrom b limit keep goal) : s.start.steps = 0 := by
  rw [h.start]
  rfl

/-- As long as a rule is enabled, the counter is the number of the state. -/
theorem steps_stateAt (hstart : s.start.steps = 0) {n : Nat}
    (h : ∀ i < n, s.enabled (s.stateAt i) ≠ []) : (s.stateAt n).steps = n := by
  induction n with
  | zero => exact hstart
  | succ n ih =>
      have hsteps : (s.stateAt n).steps = n := ih fun i hi => h i (by omega)
      have hfires : s.Fires (s.stateAt n) (s.successor (s.stateAt n)) :=
        fires_successor (h n (by omega))
      rw [stateAt_succ, hfires.steps_eq, hsteps]

/-- The run has come to its end after a number of steps: up to there its states are numbered by
their counters, and from there on nothing changes. -/
structure SettlesAt (s : System) (k : Nat) : Prop where
  steps : ∀ i, (s.stateAt i).steps = min i k
  distinct : ∀ i j, i ≤ k → j ≤ k → s.stateAt i = s.stateAt j → i = j
  stuck : s.enabled (s.stateAt k) = []
  still : ∀ i, k ≤ i → s.stateAt i = s.stateAt k

theorem settlesAt_of_steps {k : Nat} (hsteps : ∀ i ≤ k, (s.stateAt i).steps = i)
    (hstuck : s.enabled (s.stateAt k) = []) : s.SettlesAt k where
  steps := by
    intro i
    rcases Nat.le_total i k with hik | hki
    · rw [hsteps i hik, Nat.min_eq_left hik]
    · rw [stateAt_of_enabled_eq_nil hstuck hki, hsteps k (Nat.le_refl k), Nat.min_eq_right hki]
  distinct := by
    intro i j hi hj heq
    rw [← hsteps i hi, ← hsteps j hj, heq]
  stuck := hstuck
  still := fun _ hki => stateAt_of_enabled_eq_nil hstuck hki

theorem BuiltFrom.exists_settlesAt (h : s.BuiltFrom b limit keep goal) (hb : b.Fits) :
    ∃ k ≤ limit, s.SettlesAt k := by
  have hend : ∃ k, k ≤ limit ∧ s.enabled (s.stateAt k) = [] := by
    by_contra hnever
    have henabled : ∀ i ≤ limit, s.enabled (s.stateAt i) ≠ [] :=
      fun i hi hnil => hnever ⟨i, hi, hnil⟩
    have hsteps : (s.stateAt limit).steps = limit :=
      steps_stateAt h.steps_start fun i hi => henabled i (Nat.le_of_lt hi)
    exact henabled limit (Nat.le_refl limit) (h.enabled_eq_nil_of_le hb (Nat.le_of_eq hsteps.symm))
  -- the first step at which no rule is enabled
  obtain ⟨hle, hstuck⟩ := Nat.find_spec hend
  refine ⟨Nat.find hend, hle, settlesAt_of_steps ?_ hstuck⟩
  intro i hi
  refine steps_stateAt h.steps_start fun j hj hnil => ?_
  exact Nat.find_min hend (by omega) ⟨by omega, hnil⟩

namespace SettlesAt

variable {k : Nat}

theorem exists_le (h : s.SettlesAt k) (hk : k ≤ limit) (i : Nat) :
    ∃ j ≤ limit, s.stateAt j = s.stateAt i := by
  rcases Nat.le_total i k with hik | hki
  · exact ⟨i, Nat.le_trans hik hk, rfl⟩
  · exact ⟨k, hk, (h.still i hki).symm⟩

theorem exists_stateAt_iff (h : s.SettlesAt k) (hk : k ≤ limit) {P : State → Prop} :
    (∃ n, P (s.stateAt n)) ↔ ∃ i ≤ limit, P (s.stateAt i) := by
  constructor
  · rintro ⟨n, hP⟩
    obtain ⟨j, hj, heq⟩ := h.exists_le hk n
    exact ⟨j, hj, heq ▸ hP⟩
  · rintro ⟨i, -, hP⟩
    exact ⟨i, hP⟩

end SettlesAt

end Sokoban.System
