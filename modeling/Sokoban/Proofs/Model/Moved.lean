import Mathlib.Logic.Embedding.Basic
import Mathlib.Logic.Equiv.Defs
import Sokoban.Model.System
import Sokoban.Proofs.Model.Firing

/-!
# States and rules in other places

The cells may be put in other places, as long as they are kept apart, and the directions may be
exchanged for one another. States and rules go along with their cells: a rule that has been moved
does to a state that has been moved what it did before.
-/

namespace Sokoban

/-- Another place for each cell and another direction for each direction, no two of which fall
together. -/
structure GridMap where
  place : Pos ↪ Pos
  turn : Equiv.Perm Direction

variable {g : GridMap}

theorem GridMap.place_inj {p q : Pos} : g.place p = g.place q ↔ p = q := g.place.injective.eq_iff

theorem PosMap.lookup_map {α : Type} (f : Pos ↪ Pos) (p : Pos) (l : List (Pos × α)) :
    lookup (f p) (l.map fun e => (f e.1, e.2)) = lookup p l := by
  induction l with
  | nil => rfl
  | cons e rest ih =>
      rw [List.map_cons, lookup, lookup, ih]
      simp only [f.injective.eq_iff]

namespace State

def moved (g : GridMap) (s : State) : State :=
  ⟨.ofList (s.cells.entries.map fun e => (g.place e.1, e.2)), s.steps⟩

variable {s t : State}

@[simp] theorem get?_moved (g : GridMap) (s : State) (p : Pos) :
    (s.moved g).get? (g.place p) = s.get? p := by
  have hget : (s.moved g).get? (g.place p) =
      (PosMap.ofList (s.cells.entries.map fun e => (g.place e.1, e.2))).get? (g.place p) := rfl
  rw [hget, PosMap.get?_ofList]
  exact PosMap.lookup_map g.place p s.cells.entries

theorem exists_place_eq {q : Pos} {c : Content} (h : (s.moved g).get? q = some c) :
    ∃ p, g.place p = q := by
  have hget : (s.moved g).get? q =
      (PosMap.ofList (s.cells.entries.map fun e => (g.place e.1, e.2))).get? q := rfl
  rw [hget, PosMap.get?_ofList] at h
  obtain ⟨e, -, heq⟩ := List.mem_map.1 (PosMap.mem_of_lookup h)
  exact ⟨e.1, (Prod.mk.inj heq).1⟩

/-- A state is another one that has been moved if it has the other one's contents in the new places
and nothing anywhere else. -/
theorem eq_moved (hget : ∀ p, t.get? (g.place p) = s.get? p)
    (hplace : ∀ q c, t.get? q = some c → ∃ p, g.place p = q) (hsteps : t.steps = s.steps) :
    t = s.moved g := by
  refine ext_get? (fun q => ?_) hsteps
  by_cases hq : ∃ p, g.place p = q
  · obtain ⟨p, rfl⟩ := hq
    rw [hget, get?_moved]
  · have ht : t.get? q = none :=
      Option.eq_none_iff_forall_ne_some.2 fun c hc => hq (hplace q c hc)
    have hs : (s.moved g).get? q = none :=
      Option.eq_none_iff_forall_ne_some.2 fun c hc => hq (exists_place_eq hc)
    rw [ht, hs]

theorem moved_inj : s.moved g = t.moved g ↔ s = t := by
  constructor
  · intro h
    refine ext_get? (fun p => ?_) (congrArg steps h :)
    rw [← get?_moved g s, h, get?_moved]
  · rintro rfl
    rfl

end State

namespace Rule

def moved (g : GridMap) (r : Rule) : Rule where
  kind := r.kind
  keeper := g.place r.keeper
  direction := g.turn r.direction
  target := g.place r.target
  beyond := r.beyond.map g.place
  limit := r.limit
  frame := (PosSet.ofList (r.frame.map g.place)).toList

variable {r : Rule} {x : State}

theorem mem_frame_moved_iff {q : Pos} :
    q ∈ (r.moved g).frame ↔ ∃ p ∈ r.frame, g.place p = q := by
  have hset : q ∈ (r.moved g).frame ↔ q ∈ PosSet.ofList (r.frame.map g.place) := Iff.rfl
  rw [hset, PosSet.mem_ofList, List.mem_map]

theorem mem_assigned_moved_iff {q : Pos} :
    q ∈ (r.moved g).assigned ↔ ∃ p ∈ r.assigned, g.place p = q := by
  simp only [mem_assigned_iff, moved, Option.map_eq_some_iff]
  constructor
  · rintro (rfl | rfl | ⟨p, hp, rfl⟩)
    · exact ⟨_, .inl rfl, rfl⟩
    · exact ⟨_, .inr (.inl rfl), rfl⟩
    · exact ⟨p, .inr (.inr hp), rfl⟩
  · rintro ⟨p, rfl | rfl | hp, rfl⟩
    · exact .inl rfl
    · exact .inr (.inl rfl)
    · exact .inr (.inr ⟨p, hp, rfl⟩)

theorem requires_moved (g : GridMap) (r : Rule) :
    (r.moved g).requires = r.requires.map fun e => (g.place e.1, e.2) := by
  unfold requires moved
  cases r.beyond <;> rfl

theorem enabled_moved (g : GridMap) (r : Rule) (x : State) :
    (r.moved g).enabled (x.moved g) = r.enabled x := by
  unfold enabled
  rw [requires_moved, List.all_map]
  simp only [Function.comp_def, State.get?_moved]
  rfl

theorem apply_moved (g : GridMap) (r : Rule) (x : State) :
    (r.moved g).apply (x.moved g) = (r.apply x).moved g := by
  refine State.eq_moved (fun p => ?_) (fun q c hq => ?_) rfl
  -- a cell of the new state is the place of an old cell, or the rule left it as it was
  · rw [get?_apply, get?_apply, State.get?_moved]
    simp only [moved, GridMap.place_inj]
    congr 1
    rw [← Option.map_some, (Option.map_injective g.place.injective).eq_iff]
  · by_cases hassigned : q ∈ (r.moved g).assigned
    · obtain ⟨p, -, hp⟩ := mem_assigned_moved_iff.1 hassigned
      exact ⟨p, hp⟩
    · rw [get?_apply_of_not_mem hassigned] at hq
      exact State.exists_place_eq hq

theorem fire_moved (g : GridMap) (r : Rule) (x : State) :
    (r.moved g).fire (x.moved g) = (r.fire x).map (State.moved g) := by
  unfold fire
  rw [enabled_moved, apply_moved]
  cases r.enabled x <;> rfl

end Rule

end Sokoban
