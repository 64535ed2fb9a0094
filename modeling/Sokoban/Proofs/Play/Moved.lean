import Sokoban.Proofs.Model.Carried
import Sokoban.Proofs.Play.Restriction

/-!
# The plays of a system in other places

The plays of a system that has been moved are the plays of the system itself, each of their states
moved; and one of them is won if its counterpart is.
-/

namespace Sokoban

variable {g : GridMap} {s t : System} {x y : State}

theorem State.keys_moved {scope scope' : Scope}
    (hcells : ∀ q, q ∈ scope'.cells ↔ ∃ p ∈ scope.cells, g.place p = q)
    (hx : x.cells.keys = scope.cells) : (x.moved g).cells.keys = scope'.cells := by
  refine PosSet.ext fun q => ?_
  rw [hcells, ← hx]
  simp only [State.mem_keys_iff]
  constructor
  · rintro ⟨c, hc⟩
    obtain ⟨p, rfl⟩ := State.exists_place_eq hc
    exact ⟨p, ⟨c, State.get?_moved g x p ▸ hc⟩, rfl⟩
  · rintro ⟨p, ⟨c, hc⟩, rfl⟩
    exact ⟨c, (State.get?_moved g x p).trans hc⟩

namespace System.MovesTo

theorem fires (h : s.MovesTo g t) (hxy : s.Fires x y) : t.Fires (x.moved g) (y.moved g) := by
  obtain ⟨r, hr, hfire⟩ := hxy
  refine ⟨r.moved g, h.rules.mem_iff.2 (List.mem_map.2 ⟨r, hr, rfl⟩), ?_⟩
  rw [Rule.fire_moved, hfire]
  rfl

theorem exists_fires (h : s.MovesTo g t) (hxy : t.Fires (x.moved g) y) :
    ∃ z, y = z.moved g ∧ s.Fires x z := by
  obtain ⟨q, hq, hfire⟩ := hxy
  obtain ⟨r, hr, rfl⟩ := List.mem_map.1 (h.rules.mem_iff.1 hq)
  rw [Rule.fire_moved, Option.map_eq_some_iff] at hfire
  obtain ⟨z, hz, rfl⟩ := hfire
  exact ⟨z, rfl, r, hr, hz⟩

theorem fires_iff (h : s.MovesTo g t) : t.Fires (x.moved g) (y.moved g) ↔ s.Fires x y := by
  refine ⟨fun hxy => ?_, h.fires⟩
  obtain ⟨z, hz, hxz⟩ := h.exists_fires hxy
  exact State.moved_inj.1 hz ▸ hxz

theorem isPlay_iff (h : s.MovesTo g t) {play : List State} :
    t.IsPlay (play.map (State.moved g)) ↔ s.IsPlay play := by
  have hhead : (play.map (State.moved g)).head? = some t.start ↔ play.head? = some s.start := by
    rw [List.head?_map, h.start, Option.map_eq_some_iff]
    simp only [State.moved_inj, exists_eq_right]
  have hchain : (play.map (State.moved g)).IsChain t.Fires ↔ play.IsChain s.Fires := by
    rw [List.isChain_map]
    simp only [h.fires_iff]
  exact ⟨fun hp => ⟨hhead.1 hp.start, hchain.1 hp.fires⟩,
    fun hp => ⟨hhead.2 hp.start, hchain.2 hp.fires⟩⟩

theorem exists_chain (h : s.MovesTo g t) {x : State} {rest : List State}
    (hrest : (x.moved g :: rest).IsChain t.Fires) :
    ∃ states : List State, rest = states.map (State.moved g) := by
  -- each step from a moved state leads to a moved state, from which the rest goes on
  induction rest generalizing x with
  | nil => exact ⟨[], rfl⟩
  | cons y rest ih =>
      obtain ⟨hxy, hchain⟩ := List.isChain_cons_cons.1 hrest
      obtain ⟨z, rfl, -⟩ := h.exists_fires hxy
      obtain ⟨states, rfl⟩ := ih hchain
      exact ⟨z :: states, rfl⟩

theorem exists_isPlay (h : s.MovesTo g t) {play : List State} (hplay : t.IsPlay play) :
    ∃ states, s.IsPlay states ∧ play = states.map (State.moved g) := by
  obtain ⟨rest, rfl⟩ := List.head?_eq_some_iff.1 hplay.start
  have hchain := hplay.fires
  rw [h.start] at hchain
  obtain ⟨states, rfl⟩ := h.exists_chain hchain
  have hmap : t.start :: states.map (State.moved g) =
      (s.start :: states).map (State.moved g) := by
    rw [List.map_cons, h.start]
  rw [hmap] at hplay ⊢
  exact ⟨_, h.isPlay_iff.1 hplay, rfl⟩

theorem isWon_moved (h : s.MovesTo g t) (x : State) : t.isWon (x.moved g) = s.isWon x := by
  unfold isWon Goal.isWon
  rw [h.goal.all_eq, List.all_map]
  simp only [Function.comp_def, State.get?_moved]

theorem canBeWon_iff (h : s.MovesTo g t) : s.CanBeWon ↔ t.CanBeWon := by
  constructor
  · rintro ⟨play, hplay, x, hx, hwon⟩
    exact ⟨_, h.isPlay_iff.2 hplay, _, List.mem_map.2 ⟨x, hx, rfl⟩, (h.isWon_moved x).trans hwon⟩
  · rintro ⟨_, hplay, _, hmem, hwon⟩
    obtain ⟨states, hstates, rfl⟩ := h.exists_isPlay hplay
    obtain ⟨x, hx, rfl⟩ := List.mem_map.1 hmem
    exact ⟨states, hstates, x, hx, (h.isWon_moved x).symm.trans hwon⟩

end System.MovesTo

namespace System

/-- What happens in a system happens in the one that has been moved, state by state and play by
play. -/
structure PlaysAlong (s : System) (g : GridMap) (t : System) : Prop where
  keys : ∀ x : State, x.cells.keys = s.scope.cells → (x.moved g).cells.keys = t.scope.cells
  inj : ∀ x y : State, x.moved g = y.moved g → x = y
  fire : ∀ (r : Rule) (x : State), (r.moved g).fire (x.moved g) = (r.fire x).map (State.moved g)
  play : ∀ states, t.IsPlay (states.map (State.moved g)) ↔ s.IsPlay states
  onto : ∀ play, t.IsPlay play → ∃ states, s.IsPlay states ∧ play = states.map (State.moved g)
  won : s.CanBeWon ↔ t.CanBeWon

theorem MovesTo.playsAlong (h : s.MovesTo g t) : s.PlaysAlong g t where
  keys := fun _ hx => State.keys_moved h.cells hx
  inj := fun _ _ hxy => State.moved_inj.1 hxy
  fire := Rule.fire_moved g
  play := fun _ => h.isPlay_iff
  onto := fun _ hplay => h.exists_isPlay hplay
  won := h.canBeWon_iff

/-- A board in other places is compiled to the same system in other places. -/
theorem exists_compile_moved {b c : Board} (hcarries : g.Carries b c) (hb : b.Fits) (hc : c.Fits)
    (limit : Nat) :
    ∃ s t, compile b limit = .ok s ∧ compile c limit = .ok t ∧ s.MovesTo g t := by
  obtain ⟨s, hs⟩ := exists_compile hb limit
  obtain ⟨t, ht⟩ := exists_compile hc limit
  obtain ⟨hsbuilt, -⟩ := builtFrom_of_build hb hs
  obtain ⟨htbuilt, -⟩ := builtFrom_of_build hc ht
  have hgoals : c.goals.Perm (b.goals.map g.place) := by
    refine (List.perm_ext_iff_of_nodup (c.nodup_positions _)
      ((b.nodup_positions _).map g.place.injective)).2 fun q => ?_
    rw [List.mem_map]
    exact hcarries.mem_positions_iff rfl
  exact ⟨s, t, hs, ht, hsbuilt.movesTo htbuilt hcarries hb hc hgoals⟩

end System

end Sokoban
