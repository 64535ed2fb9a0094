import Mathlib.Data.List.Nodup
import Sokoban.Proofs.Model.Compiled
import Sokoban.Proofs.Model.Moved
import Sokoban.Proofs.Model.RuleOrder

/-!
# Boards of the same shape

One board may show another one in other places. Then whatever is compiled from it is what is
compiled from the other one, moved: the declared cells, the start, the rules and the goal. Only the
order may be another.
-/

namespace Sokoban

/-- A board shows another one in other places: it has the same tiles there and only walls besides,
and free cells lie in the same way to one another. -/
structure GridMap.Carries (g : GridMap) (b c : Board) : Prop where
  tile : ∀ p t, t.isWall = false → (c.get? (g.place p) = some t ↔ b.get? p = some t)
  covers : ∀ q, c.isFree q = true → ∃ p, g.place p = q
  ahead : ∀ p q d n, b.isFree p = true → b.isFree q = true →
    ((g.place p).Ahead (g.turn d) n (g.place q) ↔ p.Ahead d n q)

variable {g : GridMap} {b c : Board} {limit : Nat} {keep : Option Pos} {goal : Goal}

theorem Rule.eq_within {scope : Scope} {r : Rule} (hlimit : r.limit = scope.limit)
    (hframe : r.frame = scope.cells.toList.filter fun p => p ∉ r.assigned) :
    r = within scope r.kind r.keeper r.direction r.target r.beyond := by
  obtain ⟨kind, keeper, direction, target, beyond, _, frame⟩ := r
  subst hlimit
  exact congrArg (Rule.mk kind keeper direction target beyond scope.limit) hframe

theorem Rule.Legal.moved_inj {scope : Scope} {r q : Rule} (hr : r.Legal b scope)
    (hq : q.Legal b scope) (heq : r.moved g = q.moved g) : r = q := by
  have hkeeper : g.place r.keeper = g.place q.keeper := congrArg Rule.keeper heq
  have hdirection : g.turn r.direction = g.turn q.direction := congrArg Rule.direction heq
  have hkind : (r.moved g).kind = (q.moved g).kind := congrArg Rule.kind heq
  exact hr.ext hq (GridMap.place_inj.1 hkeeper) (g.turn.injective hdirection) hkind

/-- A step between free cells is legal if they lie in its direction; being free, they are on the
board. -/
theorem Rule.Legal.of_ahead {scope : Scope} {r : Rule} (hkind : r.kind = .move ↔ r.beyond = none)
    (hkeeper : b.isPassable r.keeper = true)
    (htarget : r.keeper.Ahead r.direction 1 r.target) (hfree : b.isFree r.target = true)
    (hbeyond : ∀ q, r.beyond = some q →
      r.keeper.Ahead r.direction 2 q ∧ b.isPassable q = true)
    (hwithin : r = Rule.within scope r.kind r.keeper r.direction r.target r.beyond) :
    r.Legal b scope := by
  have hahead : ∀ n q, r.keeper.Ahead r.direction n q → b.isFree q = true →
      b.ahead r.keeper r.direction n = some q := by
    intro n q hq hqfree
    obtain ⟨t, ht, -⟩ := Board.isFree_iff.1 hqfree
    exact Board.ahead_eq_some_iff.2 ⟨hq, Board.lt_of_get? ht⟩
  refine ⟨hkind, hkeeper, hahead 1 _ htarget hfree, hfree, fun q hq => ?_, hwithin⟩
  obtain ⟨hqahead, hqpassable⟩ := hbeyond q hq
  exact ⟨hahead 2 q hqahead (Board.isFree_of_isPassable hqpassable), hqpassable⟩

namespace GridMap.Carries

theorem mem_positions_iff (h : g.Carries b c) {test : Tile → Bool} (htest : test .wall = false)
    {q : Pos} : q ∈ c.positions test ↔ ∃ p ∈ b.positions test, g.place p = q := by
  have hwall : ∀ t, test t = true → t.isWall = false := by
    rintro (_ | _ | _ | _ | _ | _ | _) ht <;> first | rfl | (rw [htest] at ht; cases ht)
  simp only [Board.mem_positions_iff]
  constructor
  · rintro ⟨t, ht, htrue⟩
    obtain ⟨p, rfl⟩ := h.covers q (Board.isFree_iff.2 ⟨t, ht, hwall t htrue⟩)
    exact ⟨p, ⟨t, (h.tile p t (hwall t htrue)).1 ht, htrue⟩, rfl⟩
  · rintro ⟨p, ⟨t, ht, htrue⟩, rfl⟩
    exact ⟨t, (h.tile p t (hwall t htrue)).2 ht, htrue⟩

theorem mem_positions_place_iff (h : g.Carries b c) {test : Tile → Bool}
    (htest : test .wall = false) {p : Pos} :
    g.place p ∈ c.positions test ↔ p ∈ b.positions test := by
  rw [h.mem_positions_iff htest]
  simp only [GridMap.place_inj, exists_eq_right]

theorem isFree_place (h : g.Carries b c) (p : Pos) : c.isFree (g.place p) = b.isFree p := by
  rw [Bool.eq_iff_iff, Board.isFree_iff, Board.isFree_iff]
  exact exists_congr fun t => and_congr_left fun ht => h.tile p t ht

theorem isPassable_place (h : g.Carries b c) (p : Pos) :
    c.isPassable (g.place p) = b.isPassable p := by
  rw [Bool.eq_iff_iff, ← Board.mem_passable_iff, ← Board.mem_passable_iff]
  exact h.mem_positions_place_iff rfl

theorem isFree_iff (h : g.Carries b c) {q : Pos} :
    c.isFree q = true ↔ ∃ p, b.isFree p = true ∧ g.place p = q := by
  constructor
  · intro hq
    obtain ⟨p, rfl⟩ := h.covers q hq
    exact ⟨p, h.isFree_place p ▸ hq, rfl⟩
  · rintro ⟨p, hp, rfl⟩
    rw [h.isFree_place, hp]

/-! ## The start -/

theorem initial_eq (h : g.Carries b c) (keep : Option Pos) :
    State.initial c (keep.map g.place) = (State.initial b keep).moved g := by
  have hkept : ∀ p d, State.kept (keep.map g.place) (g.place p) d = State.kept keep p d := by
    intro p d
    cases keep with
    | none => rfl
    | some q => simp only [State.kept, Option.map_some, ne_eq, GridMap.place_inj]
  have hfree : ∀ {t : Tile} {d : Content}, t.content? = some d → t.isWall = false := by
    rintro (_ | _ | _ | _ | _ | _ | _) d hd <;> first | rfl | cases hd
  refine State.eq_moved (fun p => Option.ext fun e => ?_) (fun q e hq => ?_) rfl
  · rw [State.get?_initial_eq_some_iff, State.get?_initial_eq_some_iff]
    refine exists_congr fun t => exists_congr fun d => ?_
    rw [hkept]
    constructor
    · rintro ⟨ht, hd, he⟩
      exact ⟨(h.tile p t (hfree hd)).1 ht, hd, he⟩
    · rintro ⟨ht, hd, he⟩
      exact ⟨(h.tile p t (hfree hd)).2 ht, hd, he⟩
  · obtain ⟨t, d, ht, hd, -⟩ := State.get?_initial_eq_some_iff.1 hq
    exact h.covers q (Board.isFree_iff.2 ⟨t, ht, hfree hd⟩)

/-! ## The rules -/

theorem mem_scope_iff (h : g.Carries b c) {q : Pos} :
    q ∈ (Scope.ofBoard c limit).cells ↔
      ∃ p ∈ (Scope.ofBoard b limit).cells, g.place p = q := by
  simp only [Scope.mem_ofBoard_iff]
  exact h.isFree_iff

theorem legal_moved (h : g.Carries b c) {r : Rule} (hr : r.Legal b (Scope.ofBoard b limit)) :
    (r.moved g).Legal c (Scope.ofBoard c limit) := by
  have hkeeper : b.isFree r.keeper = true := Board.isFree_of_isPassable hr.passable
  -- the frame is row-major on both sides, so its cells decide
  have hframe : (r.moved g).frame =
      (Scope.ofBoard c limit).cells.toList.filter fun q => q ∉ (r.moved g).assigned := by
    refine PosSet.eq_of_mem_iff (PosSet.sorted _) ((PosSet.sorted _).filter _) fun q => ?_
    have hscope : q ∈ (Scope.ofBoard c limit).cells.toList ↔
        ∃ p ∈ (Scope.ofBoard b limit).cells, g.place p = q := h.mem_scope_iff
    rw [List.mem_filter, decide_eq_true_iff, hscope, Rule.mem_frame_moved_iff,
      Rule.mem_assigned_moved_iff]
    constructor
    · rintro ⟨p, hp, rfl⟩
      obtain ⟨hdeclared, hheld⟩ := hr.mem_frame_iff.1 hp
      refine ⟨⟨p, hdeclared, rfl⟩, ?_⟩
      rintro ⟨p', hp', heq⟩
      exact hheld (GridMap.place_inj.1 heq ▸ hp')
    · rintro ⟨⟨p, hdeclared, rfl⟩, hheld⟩
      exact ⟨p, hr.mem_frame_iff.2 ⟨hdeclared, fun hp => hheld ⟨p, hp, rfl⟩⟩, rfl⟩
  have hlimit : (r.moved g).limit = limit := hr.limit_eq
  refine .of_ahead ?_ ?_ ?_ ?_ ?_ ?_
  · exact hr.kind_eq_move_iff.trans Option.map_eq_none_iff.symm
  · exact (h.isPassable_place _).trans hr.passable
  · exact (h.ahead _ _ _ _ hkeeper hr.free).2 hr.ahead_target
  · exact (h.isFree_place _).trans hr.free
  · intro q hq
    obtain ⟨p, hp, rfl⟩ := Option.map_eq_some_iff.1 hq
    have hpassable := (hr.beyond p hp).2
    refine ⟨?_, (h.isPassable_place p).trans hpassable⟩
    exact (h.ahead _ _ _ _ hkeeper (Board.isFree_of_isPassable hpassable)).2 (hr.ahead_beyond hp)
  · exact Rule.eq_within hlimit hframe

theorem exists_legal_moved (h : g.Carries b c) {q : Rule}
    (hq : q.Legal c (Scope.ofBoard c limit)) :
    ∃ r : Rule, r.Legal b (Scope.ofBoard b limit) ∧ r.moved g = q := by
  obtain ⟨keeper, -, hkeeper⟩ := h.isFree_iff.1 (Board.isFree_of_isPassable hq.passable)
  obtain ⟨target, htarget, hplace⟩ := h.isFree_iff.1 hq.free
  obtain ⟨direction, hdirection⟩ := g.turn.surjective q.direction
  obtain ⟨beyond, hbeyond⟩ : ∃ beyond : Option Pos, beyond.map g.place = q.beyond := by
    cases hb : q.beyond with
    | none => exact ⟨none, rfl⟩
    | some y =>
        obtain ⟨p, -, hp⟩ := h.isFree_iff.1 (Board.isFree_of_isPassable (hq.beyond y hb).2)
        exact ⟨some p, congrArg some hp⟩
  have hpassable : b.isPassable keeper = true := by
    rw [← h.isPassable_place, hkeeper]
    exact hq.passable
  have hfree : b.isFree keeper = true := Board.isFree_of_isPassable hpassable
  have hahead : keeper.Ahead direction 1 target := by
    refine (h.ahead _ _ _ _ hfree htarget).1 ?_
    rw [hkeeper, hdirection, hplace]
    exact hq.ahead_target
  have hpush : ∀ p, beyond = some p → keeper.Ahead direction 2 p ∧ b.isPassable p = true := by
    intro p hp
    have hp' : q.beyond = some (g.place p) := by
      rw [← hbeyond, hp]
      rfl
    have hpassable' : b.isPassable p = true := by
      rw [← h.isPassable_place]
      exact (hq.beyond _ hp').2
    refine ⟨(h.ahead _ _ _ _ hfree (Board.isFree_of_isPassable hpassable')).1 ?_, hpassable'⟩
    rw [hkeeper, hdirection]
    exact hq.ahead_beyond hp'
  have hlegal : Rule.Legal b (Scope.ofBoard b limit)
      (.within (Scope.ofBoard b limit) q.kind keeper direction target beyond) := by
    refine .of_ahead (hq.kind_eq_move_iff.trans ?_) hpassable hahead htarget hpush rfl
    rw [← hbeyond]
    exact Option.map_eq_none_iff
  exact ⟨_, hlegal, (h.legal_moved hlegal).ext hq hkeeper hdirection rfl⟩

end GridMap.Carries

namespace System

variable {s t : System}

/-- A system is another one that has been moved: only the order of its rules and of its goal cells
may be another. -/
structure MovesTo (s : System) (g : GridMap) (t : System) : Prop where
  cells : ∀ q, q ∈ t.scope.cells ↔ ∃ p ∈ s.scope.cells, g.place p = q
  limit : t.scope.limit = s.scope.limit
  start : t.start = s.start.moved g
  rules : t.rules.Perm (s.rules.map (·.moved g))
  nodup : t.rules.Nodup
  goal : t.goal.cells.Perm (s.goal.cells.map g.place)

theorem BuiltFrom.movesTo {goal' : Goal} (hs : s.BuiltFrom b limit keep goal)
    (ht : t.BuiltFrom c limit (keep.map g.place) goal') (hcarries : g.Carries b c) (hb : b.Fits)
    (hc : c.Fits) (hgoal : goal'.cells.Perm (goal.cells.map g.place)) : s.MovesTo g t where
  cells := by
    intro q
    rw [hs.scope, ht.scope]
    exact hcarries.mem_scope_iff
  limit := by
    rw [hs.scope, ht.scope]
    rfl
  start := by
    rw [hs.start, ht.start]
    exact hcarries.initial_eq keep
  rules := by
    -- neither list repeats a rule, so it is enough to compare their members
    have hmoved : (s.rules.map (·.moved g)).Nodup :=
      (Board.nodup_rules hb hs.rules).map_on fun r hr q hq =>
        (hs.legal hb hr).moved_inj (hs.legal hb hq)
    refine (List.perm_ext_iff_of_nodup (Board.nodup_rules hc ht.rules) hmoved).2 fun q => ?_
    rw [List.mem_map]
    constructor
    · intro hq
      obtain ⟨r, hr, rfl⟩ := hcarries.exists_legal_moved (ht.legal hc hq)
      exact ⟨r, hs.mem_rules_of_legal hb hr, rfl⟩
    · rintro ⟨r, hr, rfl⟩
      exact ht.mem_rules_of_legal hc (hcarries.legal_moved (hs.legal hb hr))
  nodup := Board.nodup_rules hc ht.rules
  goal := by
    rw [hs.goal, ht.goal]
    exact hgoal

end System

end Sokoban
