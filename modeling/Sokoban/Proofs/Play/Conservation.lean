import Sokoban.Proofs.Play.Successor

/-!
# What no step adds or loses

A rule moves contents about. It keeps the cells of a state, how many of them hold each content, and
whatever it does not assign, and it counts one step within the limit. So a state that comes up in a
play or in the trace of a compiled system has the declared cells, the boxes and the keepers of the
start, and a counter in its range.
-/

namespace Sokoban

/-! ## One step -/

namespace Rule

/-- What a rule leaves as it was when it leads from one state to another. -/
structure Conserves (r : Rule) (limit : Nat) (x y : State) : Prop where
  keys : y.cells.keys = x.cells.keys
  count : ∀ c, y.count c = x.count c
  elsewhere : ∀ p, p ≠ r.keeper → p ≠ r.target → r.beyond ≠ some p → y.get? p = x.get? p
  steps : y.steps = x.steps + 1
  bounded : y.steps ≤ limit

theorem Legal.conserves {b : Board} {scope : Scope} {r : Rule} {x : State}
    (hr : r.Legal b scope) (h : r.enabled x = true) : r.Conserves scope.limit x (r.apply x) where
  keys := keys_apply h
  count := count_apply hr.distinct h
  elsewhere := by
    intro p hkeeper htarget hbeyond
    rw [get?_apply, if_neg hbeyond, if_neg htarget, if_neg hkeeper]
  steps := r.steps_apply x
  bounded := by
    have hlt : x.steps < r.limit := (enabled_iff.1 h).1
    rw [hr.limit_eq] at hlt
    exact hlt

end Rule

/-- A state over the cells of a scope, with some number of boxes and of keepers and with a counter
in its range. -/
structure State.Conforms (x : State) (scope : Scope) (boxes keepers : Nat) : Prop where
  keys : x.cells.keys = scope.cells
  boxes : x.count .box = boxes
  keepers : x.count .keeper = keepers
  steps : (scope.range .steps).1 ≤ x.steps ∧ x.steps ≤ (scope.range .steps).2

theorem Rule.Conserves.conforms {r : Rule} {scope : Scope} {x y : State} {boxes keepers : Nat}
    (h : r.Conserves scope.limit x y) (hx : x.Conforms scope boxes keepers) :
    y.Conforms scope boxes keepers where
  keys := h.keys.trans hx.keys
  boxes := (h.count .box).trans hx.boxes
  keepers := (h.count .keeper).trans hx.keepers
  steps := ⟨Nat.zero_le _, h.bounded⟩

namespace System

variable {s : System} {b : Board} {limit : Nat} {keep : Option Pos} {goal : Goal} {x y : State}

/-! ## Plays and traces -/

inductive Visits (s : System) (x : State) : Prop
  | play (play : List State) (h : s.IsPlay play) (hx : x ∈ play)
  | trace (len : Nat) (states : List State) (h : s.trace len = .ok states) (hx : x ∈ states)

theorem Visits.of_invariant {P : State → Prop} (hstart : P s.start)
    (hstep : ∀ x y, P x → s.Fires x y → P y) (h : s.Visits x) : P x := by
  cases h with
  | play play h hx => exact h.forall_mem hstart hstep x hx
  | trace len states h hx =>
      obtain ⟨i, -, rfl⟩ := (mem_trace_iff h).1 hx
      exact forall_stateAt hstart hstep i

theorem BuiltFrom.conforms_start (h : s.BuiltFrom b limit keep goal) :
    s.start.Conforms (Scope.ofBoard b limit) (s.start.count .box) b.keepers.length where
  keys := by
    rw [h.start]
    exact State.keys_initial b keep limit
  boxes := rfl
  keepers := by
    rw [h.start, State.count, State.positions_initial_keeper]
  steps := by
    rw [h.start]
    exact ⟨Nat.le_refl 0, Nat.zero_le limit⟩

theorem BuiltFrom.conforms_of_fires (h : s.BuiltFrom b limit keep goal) (hb : b.Fits)
    {boxes keepers : Nat} (hx : x.Conforms (Scope.ofBoard b limit) boxes keepers)
    (hxy : s.Fires x y) : y.Conforms (Scope.ofBoard b limit) boxes keepers := by
  obtain ⟨r, hr, henabled, rfl⟩ := h.exists_legal hb hxy
  exact (hr.conserves henabled).conforms hx

theorem BuiltFrom.conforms_of_visits (h : s.BuiltFrom b limit keep goal) (hb : b.Fits)
    (hx : s.Visits x) :
    x.Conforms (Scope.ofBoard b limit) (s.start.count .box) b.keepers.length :=
  hx.of_invariant h.conforms_start fun _ _ hy hyz => h.conforms_of_fires hb hy hyz

structure Conserving (b : Board) (limit : Nat) : Prop where
  rules : ∃ rules, b.rules (Scope.ofBoard b limit) = .ok rules ∧
    ∀ r ∈ rules, ∀ x : State, r.enabled x = true →
      ∃ y, r.fire x = some y ∧ r.Conserves limit x y
  whole : ∀ s, compile b limit = .ok s → ∀ x, s.Visits x →
    x.Conforms (Scope.ofBoard b limit) b.boxes.length b.keepers.length
  pair : ∀ pair s, compilePair b pair limit = .ok s → ∀ x, s.Visits x →
    x.Conforms (Scope.ofBoard b limit) 1 b.keepers.length

/-- Contents are moved about and neither added nor lost, whichever enabled rules fire. -/
theorem conserves_contents (hb : b.Drawn) (limit : Nat) : Conserving b limit where
  rules := by
    obtain ⟨rules, hrules⟩ : ∃ rules, b.rules (Scope.ofBoard b limit) = .ok rules :=
      ⟨_, Board.rules_eq_legalFrom hb.fits _⟩
    refine ⟨rules, hrules, fun r hr x henabled => ?_⟩
    have hlegal : r.Legal b (Scope.ofBoard b limit) := (Board.mem_rules_iff hb.fits hrules).1 hr
    exact ⟨r.apply x, Rule.fire_eq_some_iff.2 ⟨henabled, rfl⟩, hlegal.conserves henabled⟩
  whole := by
    intro s hs x hx
    obtain ⟨h, -⟩ := builtFrom_of_build hb.fits hs
    have hboxes : s.start.count .box = b.boxes.length := by
      rw [h.start, State.count, State.positions_initial_box]
    exact hboxes ▸ h.conforms_of_visits hb.fits hx
  pair := by
    intro pair s hs x hx
    obtain ⟨hboxed, hbuild⟩ := build_of_compilePair hs
    obtain ⟨h, -⟩ := builtFrom_of_build hb.fits hbuild
    have hboxes : s.start.count .box = 1 := by
      rw [h.start, State.count, State.positions_initial_kept hboxed]
      rfl
    exact hboxes ▸ h.conforms_of_visits hb.fits hx

theorem conserves_contents_of_corridor :
    ∃ (b : Board) (s t : System), b.Drawn ∧ compile b 3 = .ok s ∧
      compilePair b ⟨⟨0, 1⟩, ⟨0, 2⟩⟩ 3 = .ok t ∧
      (∃ x, s.Visits x ∧ x.steps = 1 ∧ x.Conforms (Scope.ofBoard b 3) 2 1) ∧
      ∃ x, t.Visits x ∧ x.steps = 1 ∧ x.Conforms (Scope.ofBoard b 3) 1 1 := by
  have hb : Board.Drawn ⟨[[.keeper, .box, .floor, .box]], 4, by decide⟩ :=
    ⟨"@$_$", by decide, rfl⟩
  have hconserving := conserves_contents hb 3
  have hvisits : ∀ s : System, s.Visits (s.stateAt 1) := fun s =>
    .trace 1 (s.run 1) (trace_eq_run (by decide)) (mem_run_iff.2 ⟨1, Nat.le_refl 1, rfl⟩)
  obtain ⟨s, hs, hsteps⟩ :
      ∃ s, compile ⟨[[.keeper, .box, .floor, .box]], 4, by decide⟩ 3 = .ok s ∧
        (s.stateAt 1).steps = 1 := ⟨_, rfl, by decide⟩
  obtain ⟨t, ht, htsteps⟩ :
      ∃ t, compilePair ⟨[[.keeper, .box, .floor, .box]], 4, by decide⟩ ⟨⟨0, 1⟩, ⟨0, 2⟩⟩ 3 = .ok t ∧
        (t.stateAt 1).steps = 1 := ⟨_, rfl, by decide⟩
  exact ⟨_, s, t, hb, hs, ht, ⟨_, hvisits s, hsteps, hconserving.whole s hs _ (hvisits s)⟩,
    _, hvisits t, htsteps, hconserving.pair _ t ht _ (hvisits t)⟩

end System

end Sokoban
