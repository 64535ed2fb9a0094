import Sokoban.Model.Rule
import Sokoban.Proofs.Grid.Collections

/-!
# What a firing rule does

The guard and the effect of a rule cell by cell. A rule whose cells are distinct moves contents
about and neither adds nor loses any; cells that it does not assign keep what they hold.
-/

namespace Sokoban

namespace State

theorem ext_get? {s t : State} (hcells : ∀ p, s.get? p = t.get? p) (hsteps : s.steps = t.steps) :
    s = t := by
  cases s
  cases t
  obtain rfl : _ = _ := PosMap.ext hcells
  obtain rfl : _ = _ := hsteps
  rfl

@[simp] theorem get?_set (s : State) (p : Pos) (c : Content) (q : Pos) :
    (s.set p c).get? q = if q = p then some c else s.get? q :=
  PosMap.get?_insert s.cells p c q

theorem mem_keys_iff {s : State} {p : Pos} : p ∈ s.cells.keys ↔ ∃ c, s.get? p = some c :=
  PosMap.mem_keys_iff

theorem get?_eq_none {s : State} {p : Pos} (h : p ∉ s.cells.keys) : s.get? p = none := by
  cases hp : s.get? p with
  | none => rfl
  | some c => exact absurd (mem_keys_iff.2 ⟨c, hp⟩) h

theorem mem_positions_iff {s : State} {c : Content} {p : Pos} :
    p ∈ s.positions c ↔ s.get? p = some c := by
  unfold positions get?
  rw [← PosMap.mem_entries_iff]
  simp

theorem pairwise_positions (s : State) (c : Content) : (s.positions c).Pairwise (· < ·) :=
  List.pairwise_map.2 (s.cells.sorted.filter _)

theorem nodup_positions (s : State) (c : Content) : (s.positions c).Nodup :=
  (s.pairwise_positions c).imp Pos.ne_of_lt

theorem positions_eq_iff {s : State} {c : Content} {l : List Pos} (hl : l.Pairwise (· < ·)) :
    s.positions c = l ↔ ∀ p, s.get? p = some c ↔ p ∈ l := by
  simp only [← mem_positions_iff]
  exact ⟨fun h p => h ▸ Iff.rfl, PosSet.eq_of_mem_iff (s.pairwise_positions c) hl⟩

theorem count_set {s : State} {p : Pos} {d : Content} (h : s.get? p = some d) (c e : Content) :
    (s.set p c).count e + (if d = e then 1 else 0) = s.count e + (if c = e then 1 else 0) := by
  have := PosMap.length_filter_insertEntry (a := c) s.cells.sorted h fun x => decide (x = e)
  simpa [count, positions, set, PosMap.insert] using this

end State

namespace Rule

theorem enabled_iff {r : Rule} {s : State} :
    r.enabled s = true ↔
      s.steps < r.limit ∧ ∀ p c, (p, c) ∈ r.requires → s.get? p = some c := by
  simp [enabled]

/-- A rule is enabled when its keeper is in place and the cells ahead hold what it is to step
onto: nothing, or a box with nothing beyond. -/
theorem enabled_iff_cells {r : Rule} {s : State} :
    r.enabled s = true ↔
      s.steps < r.limit ∧ s.get? r.keeper = some .keeper ∧
        ((r.beyond = none ∧ s.get? r.target = some .empty) ∨
          ∃ q, r.beyond = some q ∧ s.get? r.target = some .box ∧ s.get? q = some .empty) := by
  cases h : r.beyond with
  | none => simp [enabled, requires, h]
  | some q => simp [enabled, requires, h]

theorem mem_assigned_iff {r : Rule} {p : Pos} :
    p ∈ r.assigned ↔ p = r.keeper ∨ p = r.target ∨ r.beyond = some p := by
  unfold assigned effect
  rw [PosSet.mem_ofList]
  cases r.beyond with
  | none => simp
  | some q => simp [eq_comm]

theorem map_fst_requires (r : Rule) : r.requires.map (·.1) = r.effect.map (·.1) := by
  unfold requires effect
  cases r.beyond <;> rfl

theorem mem_mentions_iff {r : Rule} {p : Pos} :
    p ∈ r.mentions ↔ p ∈ r.assigned ∨ p ∈ r.frame := by
  simp [mentions, assigned, map_fst_requires]

/-- The content of each cell after a rule was applied. Where assigned cells coincide the later
assignment counts. -/
theorem get?_apply (r : Rule) (s : State) (p : Pos) :
    (r.apply s).get? p =
      if r.beyond = some p then some .box
      else if p = r.target then some .keeper
      else if p = r.keeper then some .empty
      else s.get? p := by
  have hsteps : (r.apply s).get? p = (r.effect.foldl (fun t e => t.set e.1 e.2) s).get? p := rfl
  rw [hsteps]
  unfold effect
  cases r.beyond with
  | none => simp
  | some q => simp [eq_comm]

@[simp] theorem steps_apply (r : Rule) (s : State) : (r.apply s).steps = s.steps + 1 := rfl

theorem get?_apply_of_not_mem {r : Rule} {p : Pos} (h : p ∉ r.assigned) (s : State) :
    (r.apply s).get? p = s.get? p := by
  rw [mem_assigned_iff, not_or, not_or] at h
  rw [get?_apply, if_neg h.2.2, if_neg h.2.1, if_neg h.1]

theorem fire_eq_some_iff {r : Rule} {s t : State} :
    r.fire s = some t ↔ r.enabled s = true ∧ t = r.apply s := by
  unfold fire
  split
  · rename_i h
    simp [h, eq_comm]
  · rename_i h
    simp [h]

structure Distinct (r : Rule) : Prop where
  keeper_ne_target : r.keeper ≠ r.target
  keeper_ne_beyond : r.beyond ≠ some r.keeper
  target_ne_beyond : r.beyond ≠ some r.target

theorem get?_target {r : Rule} {s : State} (h : r.enabled s = true) :
    s.get? r.target = some .box ∨ s.get? r.target = some .empty := by
  obtain ⟨-, -, ⟨-, hempty⟩ | ⟨q, -, hbox, -⟩⟩ := enabled_iff_cells.1 h
  · exact .inr hempty
  · exact .inl hbox

/-- A rule that is enabled steps onto an empty cell if and only if it pushes nothing. -/
theorem get?_target_eq_empty_iff {r : Rule} {s : State} (h : r.enabled s = true) :
    s.get? r.target = some .empty ↔ r.beyond = none := by
  obtain ⟨-, -, ⟨hnone, hempty⟩ | ⟨q, hq, hbox, -⟩⟩ := enabled_iff_cells.1 h
  · simp [hnone, hempty]
  · simp [hq, hbox]

theorem get?_of_beyond {r : Rule} {s : State} (h : r.enabled s = true) {q : Pos}
    (hq : r.beyond = some q) : s.get? r.target = some .box ∧ s.get? q = some .empty := by
  obtain ⟨-, -, ⟨hnone, -⟩ | ⟨q', hq', hbox, hempty⟩⟩ := enabled_iff_cells.1 h
  · rw [hnone] at hq
    cases hq
  · obtain rfl : q' = q := Option.some.inj (hq'.symm.trans hq)
    exact ⟨hbox, hempty⟩

theorem get?_apply_keeper {r : Rule} (hr : r.Distinct) (s : State) :
    (r.apply s).get? r.keeper = some .empty := by
  rw [get?_apply, if_neg hr.keeper_ne_beyond, if_neg hr.keeper_ne_target, if_pos rfl]

theorem get?_apply_target {r : Rule} (hr : r.Distinct) (s : State) :
    (r.apply s).get? r.target = some .keeper := by
  rw [get?_apply, if_neg hr.target_ne_beyond, if_pos rfl]

/-- After a rule has fired there are boxes where they were, but for the target, and beyond it. -/
theorem get?_apply_eq_box_iff {r : Rule} {s : State} (h : r.enabled s = true) {p : Pos} :
    (r.apply s).get? p = some .box ↔
      r.beyond = some p ∨ (s.get? p = some .box ∧ p ≠ r.target) := by
  have hkeeper := (enabled_iff_cells.1 h).2.1
  rw [get?_apply]
  by_cases hb : r.beyond = some p
  · simp [hb]
  · rw [if_neg hb]
    by_cases ht : p = r.target
    · simp [ht ▸ hb, ht]
    · rw [if_neg ht]
      by_cases hk : p = r.keeper
      · simp [hk ▸ hb, hk, hkeeper]
      · simp [hb, ht, hk]

/-- After a rule has fired there are keepers where they were, but for the one that stepped. -/
theorem get?_apply_eq_keeper_iff {r : Rule} {s : State} (hr : r.Distinct)
    (h : r.enabled s = true) {p : Pos} :
    (r.apply s).get? p = some .keeper ↔
      p = r.target ∨ (s.get? p = some .keeper ∧ p ≠ r.keeper) := by
  rw [get?_apply]
  by_cases hb : r.beyond = some p
  · have ht : p ≠ r.target := fun e => hr.target_ne_beyond (e ▸ hb)
    simp [hb, ht, (get?_of_beyond h hb).2]
  · rw [if_neg hb]
    by_cases ht : p = r.target
    · simp [ht]
    · rw [if_neg ht]
      by_cases hk : p = r.keeper
      · simp [hk, hr.keeper_ne_target]
      · simp [ht, hk]

/-- A rule that fires takes each content along: as many cells hold it after as before. -/
theorem count_apply {r : Rule} {s : State} (hr : r.Distinct) (h : r.enabled s = true)
    (c : Content) : (r.apply s).count c = s.count c := by
  obtain ⟨hkt, hkb, htb⟩ := hr
  obtain ⟨-, hk, ⟨hb, ht⟩ | ⟨q, hb, ht, hq⟩⟩ := enabled_iff_cells.1 h
  · have happly : (r.apply s).count c =
        ((s.set r.keeper .empty).set r.target .keeper).count c := by
      simp [apply, effect, hb, State.count, State.positions, State.set]
    have h₁ := State.count_set hk .empty c
    have ht' : (s.set r.keeper .empty).get? r.target = some .empty := by
      rw [State.get?_set, if_neg hkt.symm, ht]
    have h₂ := State.count_set ht' .keeper c
    omega
  · have happly : (r.apply s).count c =
        (((s.set r.keeper .empty).set r.target .keeper).set q .box).count c := by
      simp [apply, effect, hb, State.count, State.positions, State.set]
    have hkq : q ≠ r.keeper := fun e => hkb (e ▸ hb)
    have htq : q ≠ r.target := fun e => htb (e ▸ hb)
    have h₁ := State.count_set hk .empty c
    have ht' : (s.set r.keeper .empty).get? r.target = some .box := by
      rw [State.get?_set, if_neg hkt.symm, ht]
    have h₂ := State.count_set ht' .keeper c
    have hq' : ((s.set r.keeper .empty).set r.target .keeper).get? q = some .empty := by
      rw [State.get?_set, if_neg htq, State.get?_set, if_neg hkq, hq]
    have h₃ := State.count_set hq' .box c
    omega

theorem keys_apply {r : Rule} {s : State} (h : r.enabled s = true) :
    (r.apply s).cells.keys = s.cells.keys := by
  have hrequired : ∀ p ∈ r.assigned, ∃ c, s.get? p = some c := by
    intro p hp
    obtain ⟨-, hk, ⟨hb, ht⟩ | ⟨q, hb, ht, hq⟩⟩ := enabled_iff_cells.1 h
    · rcases mem_assigned_iff.1 hp with rfl | rfl | hp
      · exact ⟨_, hk⟩
      · exact ⟨_, ht⟩
      · rw [hb] at hp
        cases hp
    · rcases mem_assigned_iff.1 hp with rfl | rfl | hp
      · exact ⟨_, hk⟩
      · exact ⟨_, ht⟩
      · rw [hb] at hp
        cases hp
        exact ⟨_, hq⟩
  apply PosSet.ext
  intro p
  rw [State.mem_keys_iff, State.mem_keys_iff]
  by_cases hp : p ∈ r.assigned
  · refine ⟨fun _ => hrequired p hp, fun _ => ?_⟩
    rw [get?_apply]
    split
    · exact ⟨_, rfl⟩
    · split
      · exact ⟨_, rfl⟩
      · rename_i hb ht
        rw [if_pos ((mem_assigned_iff.1 hp).resolve_right (not_or.2 ⟨ht, hb⟩))]
        exact ⟨_, rfl⟩
  · rw [get?_apply_of_not_mem hp]

/-! ## The frame -/

/-- The cells that a rule assigns and those that it holds are all cells of a scope, each once. -/
structure Partitions (r : Rule) (scope : Scope) : Prop where
  nodup : r.frame.Nodup
  disjoint : ∀ p ∈ r.frame, p ∉ r.assigned
  covers : ∀ p, p ∈ scope.cells ↔ p ∈ r.assigned ∨ p ∈ r.frame

theorem get?_apply_of_mem_effect {r : Rule} (hr : r.Distinct) {p : Pos} {c : Content}
    (h : (p, c) ∈ r.effect) (s : State) : (r.apply s).get? p = some c := by
  obtain ⟨hkt, hkb, htb⟩ := hr
  rw [get?_apply]
  unfold effect at h
  cases hb : r.beyond with
  | none =>
      rw [hb] at h
      simp only [List.mem_cons, Prod.mk.injEq, List.not_mem_nil, or_false] at h
      rcases h with ⟨rfl, rfl⟩ | ⟨rfl, rfl⟩
      · simp [hkt]
      · simp
  | some q =>
      rw [hb] at h hkb htb
      simp only [List.mem_cons, Prod.mk.injEq, List.not_mem_nil, or_false] at h
      rcases h with ⟨rfl, rfl⟩ | ⟨rfl, rfl⟩ | ⟨rfl, rfl⟩
      · rw [if_neg hkb, if_neg hkt, if_pos rfl]
      · rw [if_neg htb, if_pos rfl]
      · rw [if_pos rfl]

theorem exists_mem_effect {r : Rule} {p : Pos} (h : p ∈ r.assigned) :
    ∃ c, (p, c) ∈ r.effect := by
  obtain ⟨⟨q, c⟩, hq, rfl⟩ := List.mem_map.1 (PosSet.mem_ofList.1 h)
  exact ⟨c, hq⟩

/-- The state after a rule is the only one over the scope that has the assigned contents, one more
step, and elsewhere what the frame holds. -/
theorem eq_apply_iff {r : Rule} {scope : Scope} (hr : r.Distinct) (hp : r.Partitions scope)
    {s t : State} (hs : s.cells.keys = scope.cells) (ht : t.cells.keys = scope.cells) :
    t = r.apply s ↔
      (∀ e ∈ r.effect, t.get? e.1 = some e.2) ∧ t.steps = s.steps + 1 ∧
        ∀ p ∈ r.frame, t.get? p = s.get? p := by
  constructor
  · rintro rfl
    refine ⟨fun e he => get?_apply_of_mem_effect hr he s, rfl, fun p hframe => ?_⟩
    exact get?_apply_of_not_mem (hp.disjoint p hframe) s
  · rintro ⟨heffect, hsteps, hframe⟩
    refine State.ext_get? (fun p => ?_) hsteps
    by_cases hassigned : p ∈ r.assigned
    · obtain ⟨c, hc⟩ := exists_mem_effect hassigned
      rw [heffect _ hc, get?_apply_of_mem_effect hr hc]
    · rw [get?_apply_of_not_mem hassigned]
      by_cases hheld : p ∈ r.frame
      · exact hframe p hheld
      · have hout : p ∉ scope.cells := fun h => ((hp.covers p).1 h).elim hassigned hheld
        rw [State.get?_eq_none (ht ▸ hout), State.get?_eq_none (hs ▸ hout)]

end Rule

end Sokoban
