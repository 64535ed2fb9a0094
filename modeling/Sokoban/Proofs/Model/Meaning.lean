import Sokoban.Proofs.Model.Formulas

/-!
# Formulas about states mean what the simulator does

The formula of a state holds in that state only, a guard holds where its rule is enabled, an update
relates a state to the one that its rule leads to, and the stuttering step relates each state to
itself. All of them are decided in every state that has the cells of the scope.
-/

namespace Sokoban

namespace Formula

variable {V : Type} [Variable V] {model : V → Option Const}

theorem isDecided_equal {l r : Formula V} {c d : Const} (hl : l.value model = .ok c)
    (hr : r.value model = .ok d) : (app .eq [l, r]).IsDecided model :=
  ⟨_, value_equal hl hr⟩

theorem holds_equal_iff {l r : Formula V} {c d : Const} (hl : l.value model = .ok c)
    (hr : r.value model = .ok d) : (app .eq [l, r]).Holds model ↔ c = d := by
  rw [Holds, value_equal hl hr]
  simp

/-! ## Single equations -/

variable {s t : State} {p : Pos} {c d : Content}

theorem value_cell (h : s.get? p = some d) :
    (var (Var.cell p)).value s.value? = .ok (.content d) :=
  value_var (by simp [State.value?, h])

theorem value_steps (s : State) : (var Var.steps).value s.value? = .ok (.int s.steps) :=
  value_var rfl

theorem value_cell_after (s : State) (h : t.get? p = some d) :
    (var (StepVar.after (.cell p))).value (s.stepValue? t) = .ok (.content d) :=
  value_var (by simp [State.stepValue?, StepVar.after, State.value?, h])

theorem value_cell_current (t : State) (h : s.get? p = some d) :
    (var (StepVar.current (.cell p))).value (s.stepValue? t) = .ok (.content d) :=
  value_var (by simp [State.stepValue?, StepVar.current, State.value?, h])

theorem value_steps_after (s t : State) :
    (var (StepVar.after .steps)).value (s.stepValue? t) = .ok (.int t.steps) :=
  value_var rfl

theorem value_steps_current (s t : State) :
    (var (StepVar.current .steps)).value (s.stepValue? t) = .ok (.int s.steps) :=
  value_var rfl

theorem isDecided_cellIs (h : s.get? p = some d) (c : Content) :
    (cellIs p c).IsDecided s.value? :=
  isDecided_equal (value_cell h) (value_const _)

theorem holds_cellIs_iff (h : s.get? p = some d) :
    (cellIs p c).Holds s.value? ↔ s.get? p = some c := by
  rw [cellIs, holds_equal_iff (value_cell h) (value_const _), h]
  simp

theorem isDecided_stepsAre (s : State) (n : Nat) : (stepsAre n).IsDecided s.value? :=
  isDecided_equal (value_steps s) (value_const _)

theorem holds_stepsAre_iff {n : Nat} : (stepsAre n).Holds s.value? ↔ s.steps = n := by
  rw [stepsAre, holds_equal_iff (value_steps s) (value_const _)]
  simp

theorem isDecided_stepsBelow (s : State) (n : Nat) : (stepsBelow n).IsDecided s.value? :=
  ⟨_, value_less (value_steps s) (value_const _)⟩

theorem holds_stepsBelow_iff {n : Nat} : (stepsBelow n).Holds s.value? ↔ s.steps < n := by
  rw [Holds, stepsBelow, value_less (value_steps s) (value_const _)]
  simp

theorem isDecided_becomes (s : State) (h : t.get? p = some d) (c : Content) :
    (becomes p c).IsDecided (s.stepValue? t) :=
  isDecided_equal (value_cell_after s h) (value_const _)

theorem holds_becomes_iff (h : t.get? p = some d) :
    (becomes p c).Holds (s.stepValue? t) ↔ t.get? p = some c := by
  rw [becomes, holds_equal_iff (value_cell_after s h) (value_const _), h]
  simp

theorem isDecided_counts (t : State) (h : s.steps + 1 < Word.bound) :
    counts.IsDecided (s.stepValue? t) :=
  isDecided_equal (value_steps_after s t)
    (value_sum (value_steps_current s t) (value_const _) h)

theorem holds_counts_iff (h : s.steps + 1 < Word.bound) :
    counts.Holds (s.stepValue? t) ↔ t.steps = s.steps + 1 := by
  rw [counts, holds_equal_iff (value_steps_after s t)
    (value_sum (value_steps_current s t) (value_const _) h)]
  simp

theorem isDecided_stays_cell (hs : s.get? p = some c) (ht : t.get? p = some d) :
    (stays (.cell p)).IsDecided (s.stepValue? t) :=
  isDecided_equal (value_cell_after s ht) (value_cell_current t hs)

theorem holds_stays_cell_iff (hs : s.get? p = some c) (ht : t.get? p = some d) :
    (stays (.cell p)).Holds (s.stepValue? t) ↔ t.get? p = s.get? p := by
  rw [stays, holds_equal_iff (value_cell_after s ht) (value_cell_current t hs), hs, ht]
  simp

theorem isDecided_stays_steps (s t : State) : (stays .steps).IsDecided (s.stepValue? t) :=
  isDecided_equal (value_steps_after s t) (value_steps_current s t)

theorem holds_stays_steps_iff : (stays .steps).Holds (s.stepValue? t) ↔ t.steps = s.steps := by
  rw [stays, holds_equal_iff (value_steps_after s t) (value_steps_current s t)]
  simp

end Formula

open Formula

variable {scope : Scope} {s t : State}

theorem State.exists_get? (hs : s.cells.keys = scope.cells) {p : Pos} (hp : p ∈ scope.cells) :
    ∃ c, s.get? p = some c :=
  State.mem_keys_iff.1 (hs ▸ hp)

/-! ## The formula of a state -/

private theorem isDecided_stateConjunct (h : ∀ p ∈ s.cells.keys, p ∈ t.cells.keys)
    {f : StateFormula}
    (hf : f ∈ s.cells.entries.map (fun e => cellIs e.1 e.2) ++ [stepsAre s.steps]) :
    f.IsDecided t.value? := by
  simp only [List.mem_append, List.mem_map, List.mem_singleton] at hf
  obtain ⟨⟨p, c⟩, hp, rfl⟩ | rfl := hf
  · have hkey : p ∈ s.cells.keys := State.mem_keys_iff.2 ⟨c, PosMap.mem_entries_iff.1 hp⟩
    obtain ⟨d, hd⟩ := State.mem_keys_iff.1 (h p hkey)
    exact isDecided_cellIs hd c
  · exact isDecided_stepsAre t s.steps

/-- In a state that has all its cells the formula of a state is decided, and it holds where the
steps and all these cells agree. -/
theorem State.exists_formula (hscope : ∀ p ∈ s.cells.keys, p ∈ scope.cells)
    (h : ∀ p ∈ s.cells.keys, p ∈ t.cells.keys) :
    ∃ f, s.formula scope = .ok f ∧ f.IsDecided t.value? ∧
      (f.Holds t.value? ↔
        t.steps = s.steps ∧ ∀ p c, s.get? p = some c → t.get? p = some c) := by
  refine ⟨_, State.formula_eq hscope, isDecided_and fun f hf => isDecided_stateConjunct h hf, ?_⟩
  rw [holds_and_iff fun f hf => isDecided_stateConjunct h hf]
  simp only [List.forall_mem_append, List.forall_mem_map, List.forall_mem_singleton,
    holds_stepsAre_iff]
  rw [and_comm]
  refine and_congr_right fun _ => ⟨fun hcells p c hp => ?_, fun hcells e he => ?_⟩
  · obtain ⟨d, hd⟩ := State.mem_keys_iff.1 (h p (State.mem_keys_iff.2 ⟨c, hp⟩))
    exact (holds_cellIs_iff hd).1 (hcells (p, c) (PosMap.mem_entries_iff.2 hp))
  · have he' : s.get? e.1 = some e.2 := PosMap.mem_entries_iff.1 he
    exact (holds_cellIs_iff (hcells e.1 e.2 he')).2 (hcells e.1 e.2 he')

/-- Among the states with the same cells, the formula of a state holds in that state alone. -/
theorem State.holds_formula_iff {f : StateFormula} (hf : s.formula scope = .ok f)
    (hs : s.cells.keys = scope.cells) (ht : t.cells.keys = scope.cells) :
    f.Holds t.value? ↔ t = s := by
  have hscope : ∀ p ∈ s.cells.keys, p ∈ scope.cells := fun p hp => hs ▸ hp
  have hkeys : ∀ p ∈ s.cells.keys, p ∈ t.cells.keys := fun p hp => ht ▸ hscope p hp
  obtain ⟨g, hg, -, hiff⟩ := State.exists_formula hscope hkeys
  rw [hf] at hg
  obtain rfl := Except.ok.inj hg
  rw [hiff]
  constructor
  · rintro ⟨hsteps, hcells⟩
    refine State.ext_get? (fun p => ?_) hsteps
    by_cases hp : p ∈ scope.cells
    · obtain ⟨c, hc⟩ := State.exists_get? hs hp
      rw [hc, hcells p c hc]
    · rw [State.get?_eq_none (ht ▸ hp), State.get?_eq_none (hs ▸ hp)]
  · rintro rfl
    exact ⟨rfl, fun p c hp => hp⟩

namespace Rule

/-! ## Guards -/

/-- The guard of a rule has the value that says whether the rule is enabled. -/
theorem exists_guard {r : Rule} (hr : ∀ p ∈ r.assigned, p ∈ scope.cells)
    (hs : s.cells.keys = scope.cells) :
    ∃ g, r.guard scope = .ok g ∧ g.value s.value? = .ok (.bool (r.enabled s)) := by
  have hcell : ∀ e ∈ r.requires, ∃ d, s.get? e.1 = some d := by
    intro e he
    refine State.exists_get? hs (hr e.1 ?_)
    rw [assigned, PosSet.mem_ofList, ← map_fst_requires]
    exact List.mem_map_of_mem he
  have hdecided : ∀ f ∈ stepsBelow r.limit :: r.requires.map (fun e => cellIs e.1 e.2),
      f.IsDecided s.value? := by
    simp only [List.forall_mem_cons, List.forall_mem_map]
    refine ⟨isDecided_stepsBelow s r.limit, fun e he => ?_⟩
    obtain ⟨d, hd⟩ := hcell e he
    exact isDecided_cellIs hd e.2
  refine ⟨_, guard_eq hr, ?_⟩
  have hholds := holds_and_iff hdecided
  simp only [List.forall_mem_cons, List.forall_mem_map, holds_stepsBelow_iff] at hholds
  have henabled : r.enabled s = true ↔ (app .and (stepsBelow r.limit ::
      r.requires.map fun e => cellIs e.1 e.2)).Holds s.value? := by
    rw [hholds, enabled_iff]
    refine and_congr_right fun _ => ⟨fun h e he => ?_, fun h p c hp => ?_⟩
    · obtain ⟨d, hd⟩ := hcell e he
      exact (holds_cellIs_iff hd).2 (h e.1 e.2 he)
    · obtain ⟨d, hd⟩ := hcell (p, c) hp
      exact (holds_cellIs_iff hd).1 (h (p, c) hp)
  rw [(isDecided_and hdecided).value_eq_decide henabled.symm]
  simp

/-! ## Updates -/

/-- The update of an enabled rule has the value that says whether the rule leads from the one state
to the other. -/
theorem exists_update {r : Rule} (hr : r.Distinct) (hp : r.Partitions scope)
    (hs : s.cells.keys = scope.cells) (ht : t.cells.keys = scope.cells)
    (henabled : r.enabled s = true) (hbound : s.steps + 1 < Word.bound) :
    ∃ u, r.update scope = .ok u ∧
      u.value (s.stepValue? t) = .ok (.bool (decide (r.fire s = some t))) := by
  have hassigned : ∀ p ∈ r.assigned, p ∈ scope.cells := fun p h => (hp.covers p).2 (.inl h)
  have hframe : ∀ p ∈ r.frame, p ∈ scope.cells := fun p h => (hp.covers p).2 (.inr h)
  have heffect : ∀ e ∈ r.effect, ∃ d, t.get? e.1 = some d := fun e he =>
    State.exists_get? ht (hassigned e.1 (PosSet.mem_ofList.2 (List.mem_map_of_mem he)))
  have hdecided : ∀ f ∈ r.effect.map (fun e => becomes e.1 e.2) ++
      counts :: r.frame.map (fun p => stays (.cell p)), f.IsDecided (s.stepValue? t) := by
    simp only [List.forall_mem_append, List.forall_mem_cons, List.forall_mem_map]
    refine ⟨fun e he => ?_, isDecided_counts t hbound, fun p h => ?_⟩
    · obtain ⟨d, hd⟩ := heffect e he
      exact isDecided_becomes s hd e.2
    · obtain ⟨c, hc⟩ := State.exists_get? hs (hframe p h)
      obtain ⟨d, hd⟩ := State.exists_get? ht (hframe p h)
      exact isDecided_stays_cell hc hd
  refine ⟨_, update_eq hassigned hframe, (isDecided_and hdecided).value_eq_decide ?_⟩
  have hfire : r.fire s = some t ↔ t = r.apply s := by simp [fire_eq_some_iff, henabled]
  rw [holds_and_iff hdecided, hfire, eq_apply_iff hr hp hs ht]
  simp only [List.forall_mem_append, List.forall_mem_cons, List.forall_mem_map,
    holds_counts_iff hbound]
  refine and_congr (forall₂_congr fun e he => ?_) (and_congr_right fun _ => ?_)
  · obtain ⟨d, hd⟩ := heffect e he
    exact holds_becomes_iff hd
  · refine forall₂_congr fun p h => ?_
    obtain ⟨c, hc⟩ := State.exists_get? hs (hframe p h)
    obtain ⟨d, hd⟩ := State.exists_get? ht (hframe p h)
    exact holds_stays_cell_iff hc hd

end Rule

/-! ## The stuttering step -/

theorem Scope.exists_stutter (hs : s.cells.keys = scope.cells) (ht : t.cells.keys = scope.cells) :
    ∃ u, scope.stutter = .ok u ∧
      u.value (s.stepValue? t) = .ok (.bool (decide (t = s))) := by
  have hdecided : ∀ f ∈ scope.declared.map stays, f.IsDecided (s.stepValue? t) := by
    simp only [Scope.declared, List.map_append, List.map_map, List.forall_mem_append,
      List.forall_mem_map, List.map_cons, List.map_nil, List.forall_mem_singleton]
    refine ⟨fun p hp => ?_, isDecided_stays_steps s t⟩
    obtain ⟨c, hc⟩ := State.exists_get? hs hp
    obtain ⟨d, hd⟩ := State.exists_get? ht hp
    exact isDecided_stays_cell hc hd
  refine ⟨_, scope.stutter_eq, (isDecided_and hdecided).value_eq_decide ?_⟩
  rw [holds_and_iff hdecided]
  simp only [Scope.declared, List.map_append, List.map_map, List.forall_mem_append,
    List.forall_mem_map, List.map_cons, List.map_nil, List.forall_mem_singleton,
    holds_stays_steps_iff]
  constructor
  · rintro ⟨hcells, hsteps⟩
    refine State.ext_get? (fun p => ?_) hsteps
    by_cases hp : p ∈ scope.cells
    · obtain ⟨c, hc⟩ := State.exists_get? hs hp
      obtain ⟨d, hd⟩ := State.exists_get? ht hp
      exact (holds_stays_cell_iff hc hd).1 (hcells p hp)
    · rw [State.get?_eq_none (ht ▸ hp), State.get?_eq_none (hs ▸ hp)]
  · rintro rfl
    refine ⟨fun p hp => ?_, rfl⟩
    obtain ⟨c, hc⟩ := State.exists_get? hs hp
    exact (holds_stays_cell_iff hc hc).2 rfl

end Sokoban
