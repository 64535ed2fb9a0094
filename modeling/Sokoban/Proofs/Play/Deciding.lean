import Sokoban.Proofs.Model.Winning
import Sokoban.Proofs.Play.Conservation
import Sokoban.Proofs.Play.Settling

/-!
# How far the run has to be followed

The run settles within the limit, so its states up to the limit are all states it ever has. They
decide the property: it is refuted along the run exactly if one of them is won. A list of the run's
states is given out as long as there is space for it, and is then the run.
-/

namespace Sokoban.System

open Formula

variable {s : System} {b : Board} {limit : Nat} {keep : Option Pos} {goal : Goal} {x : State}

theorem BuiltFrom.keys_stateAt (h : s.BuiltFrom b limit keep goal) (hb : b.Fits) (n : Nat) :
    (s.stateAt n).cells.keys = s.scope.cells := by
  have hconforms :=
    forall_stateAt h.conforms_start (fun _ _ hx hxy => h.conforms_of_fires hb hx hxy) n
  rw [hconforms.keys, h.scope]

/-- The property of a system is false along its run. -/
def IsRefuted (s : System) : Prop := ∃ f, s.property = .ok f ∧ ¬ f.TrueAt s.stateAt 0

theorem BuiltFrom.isRefuted_iff (h : s.BuiltFrom b limit keep goal) (hb : b.Fits)
    (hgoal : ∀ p ∈ s.goal.cells, p ∈ s.scope.cells) :
    s.IsRefuted ↔ ∃ n, s.isWon (s.stateAt n) = true := by
  have hproperty : s.property = .ok (.app .not [.app .eventually [boxesOn s.goal.cells]]) :=
    Goal.property_eq hgoal
  have hnot := Goal.not_trueAt_property_iff hgoal (h.keys_stateAt hb)
  constructor
  · rintro ⟨f, hf, hrefuted⟩
    rw [hproperty] at hf
    obtain rfl := Except.ok.inj hf
    exact hnot.1 hrefuted
  · intro hwon
    exact ⟨_, hproperty, hnot.2 hwon⟩

/-- All that the run ever comes to, and the answer to the property, shows within a limit. -/
structure DecidedWithin (s : System) (limit : Nat) : Prop where
  settles : ∃ k ≤ limit, s.SettlesAt k
  trace : ∀ len : Nat, Word.Fits ((len + 1) * stateSize) →
    ∃ states, s.trace len = .ok states ∧ states.length = len + 1 ∧
      ∀ i ≤ len, states[i]? = some (s.stateAt i)
  crash : ∀ len : Nat, ¬ Word.Fits ((len + 1) * stateSize) → ∃ c, s.trace len = Result.crash c
  recurs : ∀ i, ∃ j ≤ limit, s.stateAt j = s.stateAt i
  subset : ∀ len states bounded, s.trace len = .ok states → s.trace limit = .ok bounded →
    ∀ x ∈ states, x ∈ bounded
  property : ∃ win, s.goal.win s.scope = .ok win ∧
    s.property = .ok (.app .not [.app .eventually [win]]) ∧
    ∀ i, win.value (s.stateAt i).value? = .ok (.bool (s.isWon (s.stateAt i)))
  refuted : s.IsRefuted ↔ ∃ i ≤ limit, s.isWon (s.stateAt i) = true
  refuted_trace : ∀ bounded, s.trace limit = .ok bounded →
    (s.IsRefuted ↔ ∃ x ∈ bounded, s.isWon x = true)

/-- The run of a compiled system is decided by its states up to the limit. -/
theorem decidedWithin_limit (hb : b.Drawn) (hs : s.CompiledFrom b limit) :
    s.DecidedWithin limit := by
  obtain ⟨keep, goal, h, hcells⟩ := hs.exists_builtFrom hb.fits
  have hgoal : ∀ p ∈ s.goal.cells, p ∈ s.scope.cells := fun p hp => hcells p (h.goal ▸ hp)
  obtain ⟨k, hk, hsettles⟩ := h.exists_settlesAt hb.fits
  have hrefuted : s.IsRefuted ↔ ∃ i ≤ limit, s.isWon (s.stateAt i) = true := by
    rw [h.isRefuted_iff hb.fits hgoal]
    exact hsettles.exists_stateAt_iff hk (P := fun x => s.isWon x = true)
  exact {
    settles := ⟨k, hk, hsettles⟩
    trace := fun len hlen =>
      have htrace := trace_eq_run hlen
      ⟨_, htrace, s.length_run len, fun _ hi => trace_getElem? htrace hi⟩
    crash := fun _ hlen => exists_trace_crash hlen
    recurs := hsettles.exists_le hk
    subset := by
      intro len states bounded htrace hbounded x hx
      obtain ⟨i, -, rfl⟩ := (mem_trace_iff htrace).1 hx
      exact (mem_trace_iff hbounded).2 (hsettles.exists_le hk i)
    property := ⟨_, Goal.win_eq_boxesOn hgoal, Goal.property_eq hgoal,
      fun i => Goal.value_boxesOn hgoal (h.keys_stateAt hb.fits i)⟩
    refuted := hrefuted
    refuted_trace := by
      intro bounded hbounded
      rw [hrefuted]
      exact (exists_mem_trace_iff hbounded (P := fun x => s.isWon x = true)).symm }

theorem decidedWithin_limit_of_corridor :
    ∃ (b : Board) (s : System), b.Drawn ∧ s.CompiledFrom b 3 ∧ s.IsRefuted ∧
      s.DecidedWithin 3 := by
  have hb : Board.Drawn ⟨[[.keeper, .box, .goal]], 3, by decide⟩ := ⟨"@$.", by decide, rfl⟩
  obtain ⟨s, hs, hwon⟩ :
      ∃ s, compile ⟨[[.keeper, .box, .goal]], 3, by decide⟩ 3 = .ok s ∧
        s.isWon (s.stateAt 1) = true := ⟨_, rfl, by decide⟩
  have hdecided := decidedWithin_limit hb (.whole hs)
  exact ⟨_, s, hb, .whole hs, hdecided.refuted.2 ⟨1, by decide, hwon⟩, hdecided⟩

/-- The run goes on for ever, but a list of its states must have a word as its length. -/
theorem not_forall_exists_trace :
    ∃ (b : Board) (s : System), b.Drawn ∧ compile b 3 = .ok s ∧
      s.trace (Word.bound - 1) = Result.crash .addOverflow ∧
      ¬ ∀ len : Nat, len < Word.bound → ∃ states, s.trace len = .ok states ∧ states.length = len + 1 := by
  have hb : Board.Drawn ⟨[[.keeper, .box, .goal]], 3, by decide⟩ := ⟨"@$.", by decide, rfl⟩
  obtain ⟨s, hs⟩ : ∃ s, compile ⟨[[.keeper, .box, .goal]], 3, by decide⟩ 3 = .ok s := ⟨_, rfl⟩
  have hcrash : s.trace (Word.bound - 1) = Result.crash .addOverflow := if_pos (by decide)
  refine ⟨_, s, hb, hs, hcrash, fun h => ?_⟩
  obtain ⟨states, hstates, -⟩ := h (Word.bound - 1) (by decide)
  rw [hcrash] at hstates
  cases hstates

end Sokoban.System
