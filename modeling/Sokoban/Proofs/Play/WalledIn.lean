import Sokoban.Proofs.Board.WalledIn
import Sokoban.Proofs.Play.Moved
import Sokoban.Proofs.Play.Run
import Sokoban.Proofs.Script.Unambiguous

/-!
# Walls around a board change nothing

Beyond the edge of a board is the same as behind a wall. A board with walls added around it is
compiled to the same system in places farther down and to the right, with everything in the same
order. So it has the same run; and if no place changes, its model has the same text.
-/

namespace Sokoban

/-- Cells keep their order in the new places, and directions stay. -/
structure GridMap.KeepsOrder (g : GridMap) : Prop where
  place : ∀ p q, p < q → g.place p < g.place q
  turn : ∀ d, g.turn d = d

variable {g : GridMap}

namespace GridMap.KeepsOrder

theorem pairwise_map (h : g.KeepsOrder) {l : List Pos} (hl : l.Pairwise (· < ·)) :
    (l.map g.place).Pairwise (· < ·) :=
  List.pairwise_map.2 (hl.imp fun hpq => h.place _ _ hpq)

/-- Row-major lists stay row-major, so the members of the new list decide. -/
theorem eq_map (h : g.KeepsOrder) {l k : List Pos} (hl : l.Pairwise (· < ·))
    (hk : k.Pairwise (· < ·)) (hmem : ∀ q, q ∈ k ↔ ∃ p ∈ l, g.place p = q) :
    k = l.map g.place := by
  refine PosSet.eq_of_mem_iff hk (h.pairwise_map hl) fun q => ?_
  rw [hmem, List.mem_map]

theorem entries_moved (h : g.KeepsOrder) (x : State) :
    (x.moved g).cells.entries = x.cells.entries.map fun e => (g.place e.1, e.2) := by
  have hsorted : (x.cells.entries.map fun e => (g.place e.1, e.2)).Pairwise
      fun a b => a.1 < b.1 :=
    List.pairwise_map.2 (x.cells.sorted.imp fun hpq => h.place _ _ hpq)
  have hcells : (x.moved g).cells = ⟨_, hsorted⟩ := by
    refine PosMap.ext fun p => Option.ext fun c => ?_
    rw [← PosMap.mem_entries_iff (m := ⟨_, hsorted⟩)]
    exact PosMap.get?_ofList_eq_some_iff hsorted
  rw [hcells]

theorem frame_moved (h : g.KeepsOrder) {r : Rule} (hr : r.frame.Pairwise (· < ·)) :
    (r.moved g).frame = r.frame.map g.place :=
  h.eq_map hr (PosSet.sorted _) fun _ => Rule.mem_frame_moved_iff

theorem precedes_moved (h : g.KeepsOrder) {r q : Rule} (hrq : r.Precedes q) :
    (r.moved g).Precedes (q.moved g) := by
  unfold Rule.Precedes at *
  simp only [Rule.moved, h.turn, GridMap.place_inj]
  exact hrq.imp_left fun hlt => h.place _ _ hlt

end GridMap.KeepsOrder

namespace System

variable {s t : System} {b c : Board} {limit : Nat} {keep : Option Pos} {goal goal' : Goal}

/-- A system is another one that has been moved, with everything in the same order. -/
structure MovesInOrder (s : System) (g : GridMap) (t : System) : Prop where
  cells : t.scope.cells.toList = s.scope.cells.toList.map g.place
  limit : t.scope.limit = s.scope.limit
  start : t.start = s.start.moved g
  rules : t.rules = s.rules.map (·.moved g)
  frame : ∀ r ∈ s.rules, (r.moved g).frame = r.frame.map g.place
  goal : t.goal.cells = s.goal.cells.map g.place

theorem BuiltFrom.movesInOrder (hs : s.BuiltFrom b limit keep goal)
    (ht : t.BuiltFrom c limit (keep.map g.place) goal') (hcarries : g.Carries b c)
    (horder : g.KeepsOrder) (hb : b.Fits) (hc : c.Fits)
    (hgoal : goal'.cells = goal.cells.map g.place) : s.MovesInOrder g t := by
  have hmoves : s.MovesTo g t := hs.movesTo ht hcarries hb hc (hgoal ▸ .refl _)
  refine ⟨horder.eq_map s.scope.cells.sorted t.scope.cells.sorted hmoves.cells, hmoves.limit,
    hmoves.start, ?_, fun r hr => ?_, ?_⟩
  · have hsorted : (s.rules.map (·.moved g)).Pairwise Rule.Precedes :=
      List.pairwise_map.2 ((Board.pairwise_rules hb hs.rules).imp horder.precedes_moved)
    exact hmoves.rules.eq_of_pairwise (fun r q _ _ hrq hqr => absurd hqr hrq.asymm)
      (Board.pairwise_rules hc ht.rules) hsorted
  · refine horder.frame_moved ?_
    rw [(hs.legal hb hr).within]
    exact (PosSet.sorted _).filter _
  · rw [hs.goal, ht.goal, hgoal]

namespace MovesInOrder

theorem successor_moved (h : s.MovesInOrder g t) (x : State) :
    t.successor (x.moved g) = (s.successor x).moved g := by
  have hfire : s.rules.findSome? (fun r => (r.fire x).map (State.moved g)) =
      (s.rules.findSome? (·.fire x)).map (State.moved g) := List.map_findSome?.symm
  unfold successor
  rw [h.rules, List.findSome?_map]
  simp only [Function.comp_def, Rule.fire_moved]
  rw [hfire, Option.getD_map]

theorem runFrom_moved (h : s.MovesInOrder g t) (n : Nat) (x : State) :
    t.runFrom n (x.moved g) = (s.runFrom n x).map (State.moved g) := by
  induction n generalizing x with
  | zero => rfl
  | succ n ih => rw [runFrom, runFrom, List.map_cons, h.successor_moved, ih]

theorem stateAt_eq (h : s.MovesInOrder g t) (n : Nat) : t.stateAt n = (s.stateAt n).moved g := by
  induction n with
  | zero => exact h.start
  | succ n ih => rw [stateAt_succ, stateAt_succ, ih, h.successor_moved]

theorem trace_eq (h : s.MovesInOrder g t) (n : Nat) :
    t.trace n = (s.trace n).map (List.map (State.moved g)) := by
  unfold trace
  split
  · rfl
  · split
    · exact congrArg Except.ok (by rw [run, h.start, h.runFrom_moved, run])
    · rfl

theorem sameModel (h : s.MovesInOrder g t) (hplace : ∀ p, g.place p = p)
    (hturn : ∀ d, g.turn d = d) : s.SameModel t := by
  have hid : (g.place : Pos → Pos) = id := funext hplace
  have hmap : ∀ l : List Pos, l.map g.place = l := fun l => by rw [hid, List.map_id]
  have hrule : ∀ r ∈ s.rules, r.moved g = r := by
    intro r hr
    have hframe := h.frame r hr
    rw [hmap] at hframe
    obtain ⟨kind, keeper, direction, target, beyond, limit, frame⟩ := r
    have hbeyond : beyond.map g.place = beyond := by rw [hid, Option.map_id, id_eq]
    rw [Rule.moved, Rule.mk.injEq]
    exact ⟨rfl, hplace keeper, hturn direction, hplace target, hbeyond, rfl, hframe⟩
  have hscope : s.scope = t.scope := by
    have hcells := h.cells
    have hlimit := h.limit
    rw [hmap, PosSet.toList_inj] at hcells
    cases hs : s.scope
    cases ht : t.scope
    simp_all
  refine ⟨hscope, ?_, ?_, ?_⟩
  · rw [h.start]
    exact State.eq_moved (fun p => by rw [hplace]) (fun q _ _ => ⟨q, hplace q⟩) rfl
  · rw [h.rules, List.map_congr_left hrule, List.map_id']
  · rw [h.goal, hmap]

end MovesInOrder

/-! ## Walls around the board -/

/-- A system is another one that has been shifted down and to the right, and so is its run. Without
a shift its model is written in the same way. -/
structure ShiftsTo (s : System) (rows cols : Nat) (t : System) : Prop where
  inOrder : s.MovesInOrder (.shift rows cols) t
  start : t.start.cells.entries =
    s.start.cells.entries.map fun e => (⟨e.1.row + rows, e.1.col + cols⟩, e.2)
  run : ∀ n, t.stateAt n = (s.stateAt n).moved (.shift rows cols)
  trace : ∀ n, t.trace n = (s.trace n).map (List.map (State.moved (.shift rows cols)))
  text : rows = 0 → cols = 0 → ∃ text, s.render = .ok text ∧ t.render = .ok text

end System

def Pair.moved (g : GridMap) (p : Pair) : Pair := ⟨g.place p.boxed, g.place p.goal⟩

theorem GridMap.shift_keepsOrder (rows cols : Nat) : (shift rows cols).KeepsOrder where
  place := by
    intro p q hpq
    have hplace : ∀ r, (shift rows cols).place r = ⟨r.row + rows, r.col + cols⟩ := fun _ => rfl
    rw [hplace, hplace, Pos.lt_iff]
    rw [Pos.lt_iff] at hpq
    dsimp only
    omega
  turn := fun _ => rfl

namespace Board

variable {b : Board} {above below left right : Nat}

theorem positions_walledIn (b : Board) {test : Tile → Bool} (htest : test .wall = false) :
    (b.walledIn above below left right).positions test =
      (b.positions test).map (GridMap.shift above left).place :=
  (GridMap.shift_keepsOrder above left).eq_map (b.pairwise_positions test)
    (Board.pairwise_positions _ test) fun _ =>
      (GridMap.shift_carries b above below left right).mem_positions_iff htest

theorem pairs_walledIn (b : Board) :
    (b.walledIn above below left right).pairs = b.pairs.map (Pair.moved (.shift above left)) := by
  have hboxes : (b.walledIn above below left right).boxes =
      b.boxes.map (GridMap.shift above left).place := b.positions_walledIn rfl
  have hgoals : (b.walledIn above below left right).goals =
      b.goals.map (GridMap.shift above left).place := b.positions_walledIn rfl
  unfold pairs
  rw [hboxes, hgoals, List.zipWith_map, List.map_zipWith]
  rfl

end Board

namespace System

variable {s t : System} {b : Board} {above below left right limit : Nat} {keep : Option Pos}
  {goal goal' : Goal}

theorem BuiltFrom.shiftsTo (hs : s.BuiltFrom b limit keep goal)
    (ht : t.BuiltFrom (b.walledIn above below left right) limit
      (keep.map (GridMap.shift above left).place) goal')
    (hb : b.Fits) (hc : (b.walledIn above below left right).Fits)
    (hgoal : goal'.cells = goal.cells.map (GridMap.shift above left).place)
    (hdeclared : ∀ p ∈ goal.cells, p ∈ s.scope.cells)
    (hdeclared' : ∀ p ∈ goal'.cells, p ∈ t.scope.cells) : s.ShiftsTo above left t := by
  have horder := GridMap.shift_keepsOrder above left
  have hmoves := hs.movesInOrder ht (GridMap.shift_carries b above below left right) horder hb hc
    hgoal
  refine ⟨hmoves, ?_, hmoves.stateAt_eq, hmoves.trace_eq, ?_⟩
  · rw [hmoves.start]
    exact horder.entries_moved s.start
  · rintro rfl rfl
    have hsame : s.SameModel t := hmoves.sameModel (fun _ => rfl) fun _ => rfl
    refine ⟨s.wording, hs.render_eq hb hdeclared, ?_⟩
    rw [hsame.wording_eq]
    exact ht.render_eq hc hdeclared'

/-- With walls around the board its system, and that of each pair, is shifted; a pair has a system
on the one board if the shifted pair has one on the other. -/
theorem compile_walledIn (hb : b.Drawn) (hc : (b.walledIn above below left right).Drawn)
    (limit : Nat) :
    (∃ s t, compile b limit = .ok s ∧ compile (b.walledIn above below left right) limit = .ok t ∧
      s.ShiftsTo above left t) ∧
    (b.walledIn above below left right).pairs = b.pairs.map (Pair.moved (.shift above left)) ∧
    ∀ pair : Pair,
      ((∃ s, compilePair b pair limit = .ok s) ↔
        ∃ t, compilePair (b.walledIn above below left right) (pair.moved (.shift above left))
          limit = .ok t) ∧
      ∀ s t, compilePair b pair limit = .ok s →
        compilePair (b.walledIn above below left right) (pair.moved (.shift above left)) limit =
          .ok t → s.ShiftsTo above left t := by
  have hcarries := GridMap.shift_carries b above below left right
  refine ⟨?_, b.pairs_walledIn, fun pair => ⟨?_, fun s t hs ht => ?_⟩⟩
  · obtain ⟨s, hs⟩ := exists_compile hb.fits limit
    obtain ⟨t, ht⟩ := exists_compile hc.fits limit
    obtain ⟨hsbuilt, hsgoal⟩ := builtFrom_of_build hb.fits hs
    obtain ⟨htbuilt, htgoal⟩ := builtFrom_of_build hc.fits ht
    exact ⟨s, t, hs, ht, hsbuilt.shiftsTo htbuilt hb.fits hc.fits (b.positions_walledIn rfl) hsgoal
      htgoal⟩
  · rw [(compiles hb.fits limit).pair, (compiles hc.fits limit).pair]
    refine and_congr (hcarries.mem_positions_place_iff rfl).symm ?_
    rw [Pair.moved, hcarries.isFree_place]
  · obtain ⟨hsbuilt, hsgoal⟩ := builtFrom_of_build hb.fits (build_of_compilePair hs).2
    obtain ⟨htbuilt, htgoal⟩ := builtFrom_of_build hc.fits (build_of_compilePair ht).2
    exact hsbuilt.shiftsTo htbuilt hb.fits hc.fits rfl hsgoal htgoal

/-- Walls all around a corridor shift its system and that of its pair, and so the push at the
beginning of the run. Walls below and on the right leave even the text as it is. -/
theorem compile_walledIn_of_corridor :
    ∃ (b c d : Board) (s t u p q : System), b.Drawn ∧ c.Drawn ∧ d.Drawn ∧
      b.walledIn 1 1 1 1 = c ∧ b.walledIn 0 1 0 1 = d ∧ compile b 3 = .ok s ∧
      (compile c 3 = .ok t ∧ s.ShiftsTo 1 1 t ∧
        t.start.cells.entries = [(⟨1, 1⟩, .keeper), (⟨1, 2⟩, .box), (⟨1, 3⟩, .empty)] ∧
        (t.stateAt 1).get? ⟨1, 3⟩ = some .box) ∧
      (compilePair b ⟨⟨0, 1⟩, ⟨0, 2⟩⟩ 3 = .ok p ∧ compilePair c ⟨⟨1, 2⟩, ⟨1, 3⟩⟩ 3 = .ok q ∧
        p.ShiftsTo 1 1 q) ∧
      compile d 3 = .ok u ∧ ∃ text, s.render = .ok text ∧ u.render = .ok text := by
  obtain ⟨s, hs, hentries, hpush⟩ : ∃ s, compile ⟨[[.keeper, .box, .goal]], 3, by decide⟩ 3 =
      .ok s ∧ s.start.cells.entries = [(⟨0, 0⟩, .keeper), (⟨0, 1⟩, .box), (⟨0, 2⟩, .empty)] ∧
      (s.stateAt 1).get? ⟨0, 2⟩ = some .box := ⟨_, rfl, by rfl, by rfl⟩
  obtain ⟨p, hp⟩ : ∃ p, compilePair ⟨[[.keeper, .box, .goal]], 3, by decide⟩
      ⟨⟨0, 1⟩, ⟨0, 2⟩⟩ 3 = .ok p := ⟨_, rfl⟩
  let b : Board := ⟨[[.keeper, .box, .goal]], 3, by decide⟩
  let c : Board := ⟨[[.wall, .wall, .wall, .wall, .wall], [.wall, .keeper, .box, .goal, .wall],
    [.wall, .wall, .wall, .wall, .wall]], 5, by decide⟩
  let d : Board := ⟨[[.keeper, .box, .goal, .wall], [.wall, .wall, .wall, .wall]], 4, by decide⟩
  have hb : b.Drawn := ⟨"@$.", by decide, rfl⟩
  have hc : c.Drawn := ⟨"#####\n#@$.#\n#####", by decide, rfl⟩
  have hd : d.Drawn := ⟨"@$.#\n####", by decide, rfl⟩
  have hbc : b.walledIn 1 1 1 1 = c := rfl
  have hbd : b.walledIn 0 1 0 1 = d := rfl
  obtain ⟨⟨s', t, hs', ht, hshifts⟩, -, hpair⟩ := compile_walledIn hb (hbc ▸ hc) 3
  obtain rfl : s = s' := Except.ok.inj (hs.symm.trans hs')
  obtain ⟨q, hq⟩ := (hpair _).1.1 ⟨p, hp⟩
  have hstart : t.start.cells.entries = [(⟨1, 1⟩, .keeper), (⟨1, 2⟩, .box), (⟨1, 3⟩, .empty)] := by
    rw [hshifts.start, hentries]
    rfl
  have hpushed : (t.stateAt 1).get? ⟨1, 3⟩ = some .box := by
    rw [hshifts.run]
    exact (State.get?_moved _ _ ⟨0, 2⟩).trans hpush
  obtain ⟨⟨s'', u, hs'', hu, hstays⟩, -, -⟩ := compile_walledIn hb (hbd ▸ hd) 3
  obtain rfl : s = s'' := Except.ok.inj (hs.symm.trans hs'')
  exact ⟨b, c, d, s, t, u, p, q, hb, hc, hd, hbc, hbd, hs, ⟨hbc ▸ ht, hshifts, hstart, hpushed⟩,
    ⟨hp, hbc ▸ hq, (hpair _).2 p q hp hq⟩, hbd ▸ hu, hstays.text rfl rfl⟩

end System

end Sokoban
