import Sokoban.Proofs.Model.Totality
import Sokoban.Proofs.Play.Basic

/-!
# A pair's system can follow every play

Take all boxes but one away. Each step of a play can still be made: a keeper who pushed a box that
is gone now walks, and nothing else is different. So for each play of the whole board there is a
play of the system of a pair in which the keepers do the same.
-/

namespace Sokoban

namespace Rule

variable {b : Board} {scope : Scope} {r q : Rule} {x : State}

def walk (r : Rule) (scope : Scope) : Rule := within scope .move r.keeper r.direction r.target none

theorem Legal.walk (h : r.Legal b scope) : (r.walk scope).Legal b scope where
  kind_eq_move_iff := iff_of_true rfl rfl
  passable := h.passable
  target := h.target
  free := h.free
  beyond := by
    intro q hq
    cases hq
  within := rfl

/-- The states before and after a step tell which rule has fired. -/
theorem Legal.eq_of_apply_eq (hr : r.Legal b scope) (hq : q.Legal b scope)
    (hrx : r.enabled x = true) (hqx : q.enabled x = true) (h : r.apply x = q.apply x) : r = q := by
  have hkeeper : r.keeper = q.keeper := by
    by_contra hne
    have hstays : (r.apply x).get? q.keeper = some .keeper :=
      (get?_apply_eq_keeper_iff hr.distinct hrx).2
        (.inr ⟨(enabled_iff_cells.1 hqx).2.1, Ne.symm hne⟩)
    rw [h, get?_apply_keeper hq.distinct] at hstays
    cases hstays
  have htarget : r.target = q.target := by
    have hcomes : (q.apply x).get? r.target = some .keeper := h ▸ get?_apply_target hr.distinct x
    rcases (get?_apply_eq_keeper_iff hq.distinct hqx).1 hcomes with heq | ⟨hstood, -⟩
    · exact heq
    · rcases get?_target hrx with hbox | hempty
      · simp [hbox] at hstood
      · simp [hempty] at hstood
  have hdirection : r.direction = q.direction := by
    have hahead := hq.ahead_target
    rw [← hkeeper, ← htarget] at hahead
    exact hr.ahead_target.direction_eq hahead
  refine hr.ext hq hkeeper hdirection ((hr.kind_eq_iff hq).2 ?_)
  rw [← get?_target_eq_empty_iff hrx, ← get?_target_eq_empty_iff hqx, htarget]

end Rule

namespace State

/-- A state that has one of the boxes of another state, and is otherwise like it. -/
structure OneBoxOf (y x : State) : Prop where
  keys : y.cells.keys = x.cells.keys
  steps : y.steps = x.steps
  keeper : ∀ p, y.get? p = some .keeper ↔ x.get? p = some .keeper
  box : ∃ p, (∀ q, y.get? q = some .box ↔ q = p) ∧ x.get? p = some .box

namespace OneBoxOf

variable {b : Board} {scope : Scope} {r q : Rule} {x y : State} {p : Pos} {c : Content}

theorem get?_box (h : y.OneBoxOf x) (hp : y.get? p = some .box) : x.get? p = some .box := by
  obtain ⟨p', hp', hbox⟩ := h.box
  rw [(hp' p).1 hp]
  exact hbox

/-- A cell that holds no keeper holds what it held, or nothing. -/
theorem get?_of_ne_keeper (h : y.OneBoxOf x) (hp : x.get? p = some c) (hc : c ≠ .keeper) :
    y.get? p = some c ∨ y.get? p = some .empty := by
  have hkey : p ∈ y.cells.keys := by
    rw [h.keys]
    exact mem_keys_iff.2 ⟨c, hp⟩
  obtain ⟨d, hd⟩ := mem_keys_iff.1 hkey
  cases d with
  | empty => exact .inr hd
  | box => exact .inl (by rw [hd, ← h.get?_box hd, hp])
  | keeper =>
      rw [(h.keeper p).1 hd] at hp
      exact absurd (Option.some.inj hp).symm hc

theorem get?_empty (h : y.OneBoxOf x) (hp : x.get? p = some .empty) : y.get? p = some .empty :=
  (h.get?_of_ne_keeper hp (by simp)).elim id id

theorem get?_target (h : y.OneBoxOf x) (hrx : r.enabled x = true) :
    y.get? r.target = some .box ∨ y.get? r.target = some .empty := by
  rcases Rule.get?_target hrx with hbox | hempty
  · exact h.get?_of_ne_keeper hbox (by simp)
  · exact .inr (h.get?_empty hempty)

theorem apply (h : y.OneBoxOf x) (hr : r.Distinct) (hq : q.Distinct) (hrx : r.enabled x = true)
    (hqy : q.enabled y = true) (hkeeper : q.keeper = r.keeper) (htarget : q.target = r.target)
    (hbox : ∃ p, (∀ c, (q.apply y).get? c = some .box ↔ c = p) ∧
      (r.apply x).get? p = some .box) : (q.apply y).OneBoxOf (r.apply x) where
  keys := by rw [Rule.keys_apply hqy, Rule.keys_apply hrx, h.keys]
  steps := by rw [Rule.steps_apply, Rule.steps_apply, h.steps]
  keeper := by
    intro p
    rw [Rule.get?_apply_eq_keeper_iff hq hqy, Rule.get?_apply_eq_keeper_iff hr hrx, hkeeper,
      htarget, h.keeper p]
  box := hbox

theorem walk (h : y.OneBoxOf x) (hr : r.Legal b scope) (hrx : r.enabled x = true)
    (htarget : y.get? r.target = some .empty) :
    (r.walk scope).enabled y = true ∧ ((r.walk scope).apply y).OneBoxOf (r.apply x) := by
  obtain ⟨hsteps, hkeeper, -⟩ := Rule.enabled_iff_cells.1 hrx
  have hqy : (r.walk scope).enabled y = true := by
    refine Rule.enabled_iff_cells.2 ⟨?_, (h.keeper _).2 hkeeper, .inl ⟨rfl, htarget⟩⟩
    rw [h.steps, hr.walk.limit_eq, ← hr.limit_eq]
    exact hsteps
  obtain ⟨p, hp, hxp⟩ := h.box
  -- the box that is left is not the one that is pushed, if one is
  have hne : p ≠ r.target := by
    rintro rfl
    rw [(hp r.target).2 rfl] at htarget
    cases htarget
  refine ⟨hqy, h.apply hr.distinct hr.walk.distinct hrx hqy rfl rfl ⟨p, ?_, ?_⟩⟩
  · intro c
    rw [Rule.get?_apply_eq_box_iff hqy, hp c]
    constructor
    · intro hc
      rcases hc with hc | hc
      · cases hc
      · exact hc.1
    · intro hc
      exact .inr ⟨hc, hc ▸ hne⟩
  · exact (Rule.get?_apply_eq_box_iff hrx).2 (.inr ⟨hxp, hne⟩)

theorem push (h : y.OneBoxOf x) (hr : r.Legal b scope) (hrx : r.enabled x = true)
    (htarget : y.get? r.target = some .box) :
    r.enabled y = true ∧ (r.apply y).OneBoxOf (r.apply x) := by
  obtain ⟨hsteps, hkeeper, -⟩ := Rule.enabled_iff_cells.1 hrx
  cases hc : r.beyond with
  | none =>
      have hempty := (Rule.get?_target_eq_empty_iff hrx).2 hc
      rw [h.get?_box htarget] at hempty
      cases hempty
  | some c =>
      have hvacant : y.get? c = some .empty := h.get?_empty (Rule.get?_of_beyond hrx hc).2
      have hry : r.enabled y = true :=
        Rule.enabled_iff_cells.2
          ⟨h.steps ▸ hsteps, (h.keeper _).2 hkeeper, .inr ⟨c, hc, htarget, hvacant⟩⟩
      obtain ⟨p, hp, -⟩ := h.box
      have hpushed : r.target = p := (hp r.target).1 htarget
      refine ⟨hry, h.apply hr.distinct hr.distinct hrx hry rfl rfl ⟨c, ?_, ?_⟩⟩
      · intro d
        rw [Rule.get?_apply_eq_box_iff hry, hp d, hc, hpushed, Option.some.injEq, @eq_comm _ c d]
        simp
      · exact (Rule.get?_apply_eq_box_iff hrx).2 (.inl hc)

/-- What a keeper does among many boxes he can do with one of them. -/
theorem exists_apply (h : y.OneBoxOf x) (hr : r.Legal b scope) (hrx : r.enabled x = true) :
    ∃ q : Rule, q.Legal b scope ∧ q.keeper = r.keeper ∧ q.direction = r.direction ∧
      q.enabled y = true ∧ (q.apply y).OneBoxOf (r.apply x) := by
  rcases h.get?_target hrx with hbox | hempty
  · exact ⟨r, hr, rfl, rfl, h.push hr hrx hbox⟩
  · exact ⟨_, hr.walk, rfl, rfl, h.walk hr hrx hempty⟩

end OneBoxOf

end State

namespace System

/-- Whatever rule makes a step in one system, a rule for the same keeper and direction makes a step
in another. -/
def StepsAlike (s t : System) (x x' y y' : State) : Prop :=
  ∀ r ∈ s.rules, r.fire x = some x' →
    ∃ q ∈ t.rules, q.keeper = r.keeper ∧ q.direction = r.direction ∧ q.fire y = some y'

/-- Two lists of states of the same length, such that the states of the second have one box of those
of the first, and the keepers make the same steps in both. -/
structure Follows (s t : System) (play shadow : List State) : Prop where
  length : shadow.length = play.length
  state : ∀ (i : Nat) x y, play[i]? = some x → shadow[i]? = some y → y.OneBoxOf x
  step : ∀ (i : Nat) x x' y y', play[i]? = some x → play[i + 1]? = some x' →
    shadow[i]? = some y → shadow[i + 1]? = some y' → s.StepsAlike t x x' y y'

variable {s t : System} {b : Board} {limit : Nat} {pair : Pair} {x x' y y' : State}

theorem Follows.singleton (h : y.OneBoxOf x) : s.Follows t [x] [y] where
  length := rfl
  state := by
    intro i x₁ y₁ hx hy
    cases i with
    | zero =>
        obtain rfl := Option.some.inj hx
        obtain rfl := Option.some.inj hy
        exact h
    | succ i => simp at hx
  step := by
    intro i x₁ x₂ y₁ y₂ _ hx
    simp at hx

theorem Follows.cons {play shadow : List State} (h : s.Follows t (x' :: play) (y' :: shadow))
    (hxy : y.OneBoxOf x) (hstep : s.StepsAlike t x x' y y') :
    s.Follows t (x :: x' :: play) (y :: y' :: shadow) where
  length := congrArg (· + 1) h.length
  state := by
    intro i x₁ y₁ hx hy
    cases i with
    | zero =>
        obtain rfl := Option.some.inj hx
        obtain rfl := Option.some.inj hy
        exact hxy
    | succ i => exact h.state i x₁ y₁ hx hy
  step := by
    intro i x₁ x₂ y₁ y₂ hx hx' hy hy'
    cases i with
    | zero =>
        obtain rfl := Option.some.inj hx
        obtain rfl := Option.some.inj hx'
        obtain rfl := Option.some.inj hy
        obtain rfl := Option.some.inj hy'
        exact hstep
    | succ i => exact h.step i x₁ x₂ y₁ y₂ hx hx' hy hy'

/-! ## The whole board and a pair -/

variable {keep keep' : Option Pos} {goal goal' : Goal}

theorem BuiltFrom.exists_stepsAlike (hs : s.BuiltFrom b limit keep goal)
    (ht : t.BuiltFrom b limit keep' goal') (hb : b.Fits) (hxy : y.OneBoxOf x)
    (hfires : s.Fires x x') : ∃ y', t.Fires y y' ∧ y'.OneBoxOf x' ∧ s.StepsAlike t x x' y y' := by
  obtain ⟨r, hr, hfire⟩ := hfires
  have hrlegal := hs.legal hb hr
  obtain ⟨hrx, hx'⟩ := Rule.fire_eq_some_iff.1 hfire
  obtain ⟨q, hqlegal, hkeeper, hdirection, hqy, hqr⟩ := hxy.exists_apply hrlegal hrx
  have hq : q ∈ t.rules := ht.mem_rules_of_legal hb hqlegal
  have hqfire : q.fire y = some (q.apply y) := Rule.fire_eq_some_iff.2 ⟨hqy, rfl⟩
  refine ⟨q.apply y, ⟨q, hq, hqfire⟩, hx' ▸ hqr, ?_⟩
  intro r' hr' hfire'
  obtain ⟨hrx', hx''⟩ := Rule.fire_eq_some_iff.1 hfire'
  obtain rfl : r = r' := hrlegal.eq_of_apply_eq (hs.legal hb hr') hrx hrx' (hx'.symm.trans hx'')
  exact ⟨q, hq, hkeeper, hdirection, hqfire⟩

theorem BuiltFrom.exists_follows (hs : s.BuiltFrom b limit keep goal)
    (ht : t.BuiltFrom b limit keep' goal') (hb : b.Fits) (hxy : y.OneBoxOf x) {rest : List State}
    (hplay : (x :: rest).IsChain s.Fires) :
    ∃ rest', (y :: rest').IsChain t.Fires ∧ s.Follows t (x :: rest) (y :: rest') := by
  induction rest generalizing x y with
  | nil => exact ⟨[], List.isChain_singleton y, .singleton hxy⟩
  | cons x' rest ih =>
      obtain ⟨hfires, hrest⟩ := List.isChain_cons_cons.1 hplay
      obtain ⟨y', hfires', hxy', hstep⟩ := hs.exists_stepsAlike ht hb hxy hfires
      obtain ⟨rest', hrest', hfollows⟩ := ih hxy' hrest
      exact ⟨y' :: rest', List.isChain_cons_cons.2 ⟨hfires', hrest'⟩, hfollows.cons hxy hstep⟩

theorem BuiltFrom.oneBoxOf_start (hs : s.BuiltFrom b limit none goal)
    (ht : t.BuiltFrom b limit (some pair.boxed) goal') (hboxed : pair.boxed ∈ b.boxes) :
    t.start.OneBoxOf s.start where
  keys := by rw [ht.keys_start, hs.keys_start, ht.scope, hs.scope]
  steps := by rw [ht.start, hs.start]; rfl
  keeper := by
    intro p
    rw [ht.start, hs.start, State.get?_initial_keeper_iff, State.get?_initial_keeper_iff]
  box := by
    refine ⟨pair.boxed, fun p => ?_, ?_⟩
    · rw [ht.start, ← State.mem_positions_iff, State.positions_initial_kept hboxed,
        List.mem_singleton]
    · rw [hs.start, ← State.mem_positions_iff, State.positions_initial_box]
      exact hboxed

/-- For every play of the whole board there is one of a pair's system with the same steps of the
keepers, in which the only box is one of those on the board. -/
theorem exists_following_play (hb : b.Drawn) (limit : Nat) (pair : Pair)
    (hboxed : pair.boxed ∈ b.boxes) (hgoal : b.isFree pair.goal = true) :
    ∃ s t, compile b limit = .ok s ∧ compilePair b pair limit = .ok t ∧
      ∀ play, s.IsPlay play → ∃ shadow, t.IsPlay shadow ∧ s.Follows t play shadow := by
  obtain ⟨s, hs⟩ := exists_compile hb.fits limit
  obtain ⟨t, ht⟩ := exists_compilePair hb.fits hboxed hgoal limit
  obtain ⟨hsbuilt, -⟩ := builtFrom_of_build hb.fits hs
  have htbuilt := builtFrom_of_compilePair hb.fits ht
  refine ⟨s, t, hs, ht, ?_⟩
  intro play hplay
  obtain ⟨hstart, hfires⟩ := hplay
  cases play with
  | nil => cases hstart
  | cons x rest =>
      obtain rfl : x = s.start := Option.some.inj hstart
      have hxy := hsbuilt.oneBoxOf_start htbuilt hboxed
      obtain ⟨rest', hrest', hfollows⟩ := hsbuilt.exists_follows htbuilt hb.fits hxy hfires
      exact ⟨t.start :: rest', ⟨rfl, hrest'⟩, hfollows⟩

theorem exists_following_play_of_corridor :
    ∃ (b : Board) (s t : System) (x : State), b.Drawn ∧ (⟨0, 3⟩ : Pos) ∈ b.boxes ∧
      b.isFree ⟨0, 2⟩ = true ∧ compile b 3 = .ok s ∧
      compilePair b ⟨⟨0, 3⟩, ⟨0, 2⟩⟩ 3 = .ok t ∧ s.IsPlay [s.start, x] ∧
      x.get? ⟨0, 2⟩ = some .box ∧
      ∃ shadow, t.IsPlay shadow ∧ s.Follows t [s.start, x] shadow := by
  have hb : Board.Drawn ⟨[[.keeper, .box, .floor, .box]], 4, by decide⟩ :=
    ⟨"@$_$", by decide, rfl⟩
  obtain ⟨s, t, hs, ht, hfollowed⟩ :=
    exists_following_play hb 3 ⟨⟨0, 3⟩, ⟨0, 2⟩⟩ (by decide) (by decide)
  have hmoves : s.enabled s.start ≠ [] ∧ (s.successor s.start).get? ⟨0, 2⟩ = some .box := by
    obtain ⟨s', hs', hmoves⟩ :
        ∃ s', compile ⟨[[.keeper, .box, .floor, .box]], 4, by decide⟩ 3 = .ok s' ∧
          s'.enabled s'.start ≠ [] ∧ (s'.successor s'.start).get? ⟨0, 2⟩ = some .box :=
      ⟨_, rfl, by decide, by decide⟩
    rw [hs] at hs'
    exact Except.ok.inj hs' ▸ hmoves
  have hplay : s.IsPlay [s.start, s.successor s.start] := isPlay_pair hmoves.1
  exact ⟨_, s, t, _, hb, by decide, by decide, hs, ht, hplay, hmoves.2, hfollowed _ hplay⟩

end System

end Sokoban
