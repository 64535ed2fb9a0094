import Sokoban.Proofs.Model.RuleOrder
import Sokoban.Proofs.Play.Settling
import Sokoban.Proofs.Play.SinglePush

/-!
# The run of a single keeper

After a step to the left or to the right a single keeper stands on a cell that no rule leaves, or it
can step back. Stepping back comes before all vertical steps in the list of rules. So the run
of a board with one keeper goes up and down first, and then only left and right.
-/

namespace Sokoban

/-! ## Stepping back -/

namespace Direction

def IsVertical (d : Direction) : Prop := d = up ∨ d = down

def IsHorizontal (d : Direction) : Prop := d = left ∨ d = right

instance (d : Direction) : Decidable d.IsVertical := inferInstanceAs (Decidable (_ ∨ _))

instance (d : Direction) : Decidable d.IsHorizontal := inferInstanceAs (Decidable (_ ∨ _))

theorem isHorizontal_iff {d : Direction} : d.IsHorizontal ↔ ¬ d.IsVertical := by
  cases d <;> decide

def opposite : Direction → Direction
  | left => right
  | right => left
  | up => down
  | down => up

theorem IsHorizontal.opposite {d : Direction} (h : d.IsHorizontal) : d.opposite.IsHorizontal := by
  revert h
  cases d <;> decide

/-- The horizontal directions come first. -/
theorem IsHorizontal.of_rank_le {d e : Direction} (he : e.IsHorizontal) (h : d.rank ≤ e.rank) :
    d.IsHorizontal := by
  revert he h
  cases d <;> cases e <;> decide

end Direction

namespace Pos.Ahead

variable {p q : Pos} {d : Direction}

theorem back (h : p.Ahead d 1 q) : q.Ahead d.opposite 1 p := by
  obtain ⟨hrow, hcol⟩ := h
  cases d <;> simp only [Direction.delta] at hrow hcol <;> constructor <;>
    simp only [Direction.opposite, Direction.delta] <;> omega

theorem col_eq (h : p.Ahead d 1 q) (hd : d.IsVertical) : q.col = p.col := by
  have hcol := h.col
  rcases hd with rfl | rfl <;> simp only [Direction.delta] at hcol <;> omega

theorem row_eq (h : p.Ahead d 1 q) (hd : d.IsHorizontal) : q.row = p.row := by
  have hrow := h.row
  rcases hd with rfl | rfl <;> simp only [Direction.delta] at hrow <;> omega

end Pos.Ahead

namespace Rule

variable {b : Board} {scope : Scope} {r : Rule} {x : State}

def back (r : Rule) (scope : Scope) : Rule :=
  within scope .move r.target r.direction.opposite r.keeper none

/-- From a passable cell the keeper may step back, since it came from a passable one. -/
theorem Legal.back (h : r.Legal b scope) (hp : b.isPassable r.target = true) :
    (r.back scope).Legal b scope where
  kind_eq_move_iff := iff_of_true rfl rfl
  passable := hp
  target := by
    obtain ⟨t, ht, -⟩ := Board.isPassable_iff.1 h.passable
    exact Board.ahead_eq_some_iff.2 ⟨h.ahead_target.back, Board.lt_of_get? ht⟩
  free := Board.isFree_of_isPassable h.passable
  beyond := by
    intro q hq
    cases hq
  within := rfl

theorem Legal.enabled_back (h : r.Legal b scope) (hsteps : (r.apply x).steps < scope.limit) :
    (r.back scope).enabled (r.apply x) = true := by
  have hkeeper : (r.apply x).get? r.keeper = some .empty := get?_apply_keeper h.distinct x
  have htarget : (r.apply x).get? r.target = some .keeper := get?_apply_target h.distinct x
  exact enabled_iff_cells.2 ⟨hsteps, htarget, .inl ⟨rfl, hkeeper⟩⟩

end Rule

namespace System

variable {s : System} {b : Board} {limit : Nat} {keep : Option Pos} {goal : Goal} {x : State}
  {r q : Rule}

/-! ## After a horizontal step -/

/-- The rule that fires is the first in the list of all that are enabled. -/
theorem BuiltFrom.eq_or_precedes (h : s.BuiltFrom b limit keep goal) (hb : b.Fits)
    (hr : s.firing? x = some r) (hq : q ∈ s.rules) (henabled : q.enabled x = true) :
    r = q ∨ r.Precedes q := by
  rw [firing?_eq_find?, List.find?_eq_some_iff_append] at hr
  obtain ⟨-, before, after, hrules, hbefore⟩ := hr
  have hpairwise := Board.pairwise_rules hb h.rules
  rw [hrules] at hpairwise hq
  rcases List.mem_append.1 hq with hq | hq
  · have hdisabled := hbefore q hq
    rw [henabled] at hdisabled
    cases hdisabled
  · rcases List.mem_cons.1 hq with rfl | hq
    · exact .inl rfl
    · have htail := (List.pairwise_append.1 hpairwise).2.1
      exact .inr ((List.pairwise_cons.1 htail).1 q hq)

/-- What the only keeper does after a horizontal step is a horizontal step again. -/
theorem BuiltFrom.isHorizontal_of_apply (h : s.BuiltFrom b limit keep goal) (hb : b.Fits) {k : Pos}
    (hx : x.Lone k) (hr : r ∈ s.rules) (henabled : r.enabled x = true)
    (hhorizontal : r.direction.IsHorizontal) (hq : s.firing? (r.apply x) = some q) :
    q.direction.IsHorizontal := by
  have hlegal := h.legal hb hr
  obtain ⟨hqmem, hqenabled⟩ := mem_of_firing? hq
  have hqlegal := h.legal hb hqmem
  have hlone : (r.apply x).Lone r.target := hx.apply hlegal.distinct henabled
  have hqkeeper : q.keeper = r.target := hlone.keeper_eq hqenabled
  -- the keeper leaves the cell it came to, so it may as well go back from there
  have hpassable : b.isPassable r.target = true := hqkeeper ▸ hqlegal.passable
  have hsteps : (r.apply x).steps < (Scope.ofBoard b limit).limit := by
    have hlt := (Rule.enabled_iff.1 hqenabled).1
    rwa [hqlegal.limit_eq] at hlt
  have hback := h.mem_rules_of_legal hb (hlegal.back hpassable)
  have hbackdir : (r.back (Scope.ofBoard b limit)).direction.IsHorizontal := hhorizontal.opposite
  rcases h.eq_or_precedes hb hq hback (hlegal.enabled_back hsteps) with heq | hlt | ⟨-, hrank⟩
  · exact heq ▸ hbackdir
  · exact absurd (hqkeeper ▸ hlt) (Pos.lt_irrefl _)
  · rcases hrank with hlt | ⟨heq, -, -⟩
    · exact hbackdir.of_rank_le (Nat.le_of_lt hlt)
    · exact heq ▸ hbackdir

/-! ## Along the run -/

theorem BuiltFrom.exists_lone (h : s.BuiltFrom b limit keep goal) (hb : b.Fits)
    (hone : b.keepers.length = 1) (n : Nat) : ∃ k, (s.stateAt n).Lone k := by
  refine forall_stateAt (P := fun x => ∃ k, x.Lone k) (h.unpushed_start hone).keeper ?_ n
  intro x y hx hxy
  obtain ⟨k, hk⟩ := hx
  obtain ⟨r, hr, henabled, rfl⟩ := h.exists_legal hb hxy
  exact ⟨r.target, hk.apply hr.distinct henabled⟩

theorem BuiltFrom.isHorizontal_of_firesAt (h : s.BuiltFrom b limit keep goal) (hb : b.Fits)
    (hone : b.keepers.length = 1) {i j : Nat} (hij : i ≤ j) (hr : s.FiresAt i r)
    (hhorizontal : r.direction.IsHorizontal) (hq : s.FiresAt j q) : q.direction.IsHorizontal := by
  -- a rule fires at every step in between, since the run has not stopped before `j`
  induction j, hij using Nat.le_induction generalizing q with
  | base => exact hr.unique hq ▸ hhorizontal
  | succ j _ ih =>
      obtain ⟨r', hr'⟩ := hq.exists_pred
      obtain ⟨k, hk⟩ := h.exists_lone hb hone j
      have hfirst : s.firing? (r'.apply (s.stateAt j)) = some q := hr'.next ▸ hq.first
      exact h.isHorizontal_of_apply hb hk hr'.mem_rules hr'.enabled (ih hr') hfirst

/-- A number that each firing leaves to the keeper's cell is the same wherever the keeper goes. -/
theorem BuiltFrom.eq_of_lone (h : s.BuiltFrom b limit keep goal) (hb : b.Fits)
    (hone : b.keepers.length = 1) {f : Pos → Nat} {i j : Nat} {p p' : Pos} (hij : i ≤ j)
    (hf : ∀ n r, i ≤ n → n < j → s.FiresAt n r → f r.target = f r.keeper)
    (hp : (s.stateAt i).Lone p) (hp' : (s.stateAt j).Lone p') : f p' = f p := by
  induction j, hij using Nat.le_induction generalizing p' with
  | base => rw [hp.unique hp']
  | succ j hij ih =>
      obtain ⟨k, hk⟩ := h.exists_lone hb hone j
      have hsame : f k = f p :=
        ih (fun n r hi hn => hf n r hi (Nat.lt_succ_of_lt hn)) hk
      rcases s.firesAt_or_still j with ⟨r, hr⟩ | ⟨-, hstill⟩
      · have hlone := hk.apply (h.legal hb hr.mem_rules).distinct hr.enabled
        rw [← hr.next] at hlone
        rw [hp'.unique hlone, hf j r hij (Nat.lt_succ_self j) hr, hk.keeper_eq hr.enabled, hsame]
      · rw [hstill] at hp'
        rw [hp'.unique hk, hsame]

/-- A run in two phases: a number of vertical steps, and then horizontal ones or none at all. In the
first phase the keeper stays in its column, and in the second in its row. -/
structure TwoPhases (s : System) (m : Nat) : Prop where
  vertical : ∀ n < m, ∃ r, s.FiresAt n r ∧ r.direction.IsVertical
  horizontal : ∀ n, m ≤ n → (∃ r, s.FiresAt n r ∧ r.direction.IsHorizontal) ∨
    (s.enabled (s.stateAt n) = [] ∧ s.stateAt (n + 1) = s.stateAt n)
  column : ∃ col, ∀ n ≤ m, ∃ row, (s.stateAt n).positions .keeper = [⟨row, col⟩]
  row : ∃ row, ∀ n, m ≤ n → ∃ col, (s.stateAt n).positions .keeper = [⟨row, col⟩]
  order : ∀ i j r q, i ≤ j → s.FiresAt i r → r.direction.IsHorizontal → s.FiresAt j q →
    ¬ q.direction.IsVertical
  trace : ∀ len states, s.trace len = .ok states → ∀ n ≤ len, states[n]? = some (s.stateAt n)

theorem BuiltFrom.exists_phase_change (h : s.BuiltFrom b limit keep goal) (hb : b.Fits)
    (hone : b.keepers.length = 1) :
    ∃ m, (∀ n < m, ∃ r, s.FiresAt n r ∧ r.direction.IsVertical) ∧
      ∀ n r, m ≤ n → s.FiresAt n r → r.direction.IsHorizontal := by
  classical
  obtain ⟨k, -, hsettles⟩ := h.exists_settlesAt hb
  have hend : ∃ n, ¬ ∃ r, s.FiresAt n r ∧ r.direction.IsVertical := by
    refine ⟨k, ?_⟩
    rintro ⟨r, hr, -⟩
    exact hr.enabled_ne_nil hsettles.stuck
  -- the first step that is not a vertical one
  refine ⟨Nat.find hend, fun n hn => not_not.1 (Nat.find_min hend hn), ?_⟩
  intro n r hn hr
  rcases s.firesAt_or_still (Nat.find hend) with ⟨q, hq⟩ | ⟨hnil, -⟩
  · have hhorizontal : q.direction.IsHorizontal :=
      Direction.isHorizontal_iff.2 fun hvertical => Nat.find_spec hend ⟨q, hq, hvertical⟩
    exact h.isHorizontal_of_firesAt hb hone hn hq hhorizontal hr
  · have hstill := stateAt_of_enabled_eq_nil hnil hn
    exact absurd (hstill ▸ hnil) hr.enabled_ne_nil

/-- The run of a board with one keeper is a vertical walk followed by a horizontal one. -/
theorem exists_twoPhases (hb : b.Drawn) (hone : b.keepers.length = 1)
    (hs : s.CompiledFrom b limit) : ∃ m, s.TwoPhases m := by
  obtain ⟨keep, goal, h, -⟩ := hs.exists_builtFrom hb.fits
  obtain ⟨m, hvertical, hhorizontal⟩ := h.exists_phase_change hb.fits hone
  have hlone := h.exists_lone hb.fits hone
  obtain ⟨first, hfirst⟩ := hlone 0
  obtain ⟨turn, hturn⟩ := hlone m
  refine ⟨m, {
    vertical := hvertical
    horizontal := ?_
    column := ⟨first.col, ?_⟩
    row := ⟨turn.row, ?_⟩
    order := fun _ _ _ _ hij hr hd hq =>
      Direction.isHorizontal_iff.1 (h.isHorizontal_of_firesAt hb.fits hone hij hr hd hq)
    trace := fun len states htrace n hn => trace_getElem? htrace hn }⟩
  · intro n hn
    rcases s.firesAt_or_still n with ⟨r, hr⟩ | hstill
    · exact .inl ⟨r, hr, hhorizontal n r hn hr⟩
    · exact .inr hstill
  · intro n hn
    obtain ⟨p, hp⟩ := hlone n
    have hcol : p.col = first.col := by
      refine h.eq_of_lone hb.fits hone (f := Pos.col) (Nat.zero_le n) ?_ hfirst hp
      intro i r _ hi hr
      obtain ⟨q, hq, hd⟩ := hvertical i (Nat.lt_of_lt_of_le hi hn)
      exact (h.legal hb.fits hr.mem_rules).ahead_target.col_eq (hq.unique hr ▸ hd)
    exact ⟨p.row, hcol ▸ hp.positions_eq⟩
  · intro n hn
    obtain ⟨p, hp⟩ := hlone n
    have hrow : p.row = turn.row := by
      refine h.eq_of_lone hb.fits hone (f := Pos.row) hn ?_ hturn hp
      intro i r hi _ hr
      exact (h.legal hb.fits hr.mem_rules).ahead_target.row_eq (hhorizontal i r hi hr)
    exact ⟨p.col, hrow ▸ hp.positions_eq⟩

theorem exists_twoPhases_of_corner :
    ∃ (b : Board) (s : System) (r q : Rule), b.Drawn ∧ b.keepers.length = 1 ∧
      s.CompiledFrom b 3 ∧ s.FiresAt 0 r ∧ r.direction = .down ∧ s.FiresAt 1 q ∧
      q.direction = .right ∧ ∃ m, s.TwoPhases m := by
  have hb : Board.Drawn ⟨[[.keeper, .wall], [.floor, .floor]], 2, by decide⟩ :=
    ⟨"@#\n__", by decide, rfl⟩
  obtain ⟨s, hs, hfirst, hsecond⟩ :
      ∃ s, compile ⟨[[.keeper, .wall], [.floor, .floor]], 2, by decide⟩ 3 = .ok s ∧
        (s.firing? (s.stateAt 0)).map (·.direction) = some .down ∧
        (s.firing? (s.stateAt 1)).map (·.direction) = some .right :=
    ⟨_, rfl, by decide, by decide⟩
  obtain ⟨r, hr, hdown⟩ := Option.map_eq_some_iff.1 hfirst
  obtain ⟨q, hq, hright⟩ := Option.map_eq_some_iff.1 hsecond
  exact ⟨_, s, r, q, hb, by decide, .whole hs, firesAt_of_firing? hr, hdown, firesAt_of_firing? hq,
    hright, exists_twoPhases hb (by decide) (.whole hs)⟩

end System

end Sokoban
