import Sokoban.Proofs.Board.Drawn
import Sokoban.Proofs.Model.RuleOrder

/-!
# The rules of a board, one by one

The list of rules is described by the drawing alone: for which cells, directions and kinds there is
a rule, in which order the rules stand, and what each of them says. No machine word is left in the
description.
-/

namespace Sokoban

namespace Rule

def IsFor (r : Rule) (p : Pos) (d : Direction) (k : RuleKind) : Prop :=
  r.keeper = p ∧ r.direction = d ∧ r.kind = k

/-- The rule says what its keeper, direction and kind determine, and holds all other cells of the
scope in row-major order. -/
structure Determined (scope : Scope) (r : Rule) : Prop where
  target : r.keeper.Ahead r.direction 1 r.target
  beyond_of_move : r.kind = .move → r.beyond = none
  beyond_of_push : r.kind = .push → ∃ q, r.beyond = some q ∧ r.keeper.Ahead r.direction 2 q
  limit : r.limit = scope.limit
  sorted : r.frame.Pairwise (· < ·)
  mem_frame_iff : ∀ p, p ∈ r.frame ↔
    p ∈ scope.cells ∧ p ≠ r.keeper ∧ p ≠ r.target ∧ r.beyond ≠ some p
  distinct : r.Distinct

variable {b : Board} {scope : Scope} {r : Rule} {p n q : Pos} {d : Direction}

theorem sorted_frame_within (scope : Scope) (k : RuleKind) (p : Pos) (d : Direction) (n : Pos)
    (q : Option Pos) : (within scope k p d n q).frame.Pairwise (· < ·) :=
  scope.cells.sorted.filter _

theorem Legal.determined (h : r.Legal b scope) : r.Determined scope where
  target := h.ahead_target
  beyond_of_move := h.kind_eq_move_iff.1
  beyond_of_push hkind := by
    obtain ⟨q, hq⟩ := h.kind_eq_push_iff.1 hkind
    exact ⟨q, hq, h.ahead_beyond hq⟩
  limit := h.limit_eq
  sorted := h.within ▸ sorted_frame_within _ _ _ _ _ _
  mem_frame_iff p := by simp [h.mem_frame_iff, mem_assigned_iff]
  distinct := h.distinct

theorem legal_move (scope : Scope) (hp : b.isPassable p = true) (hn : b.ahead p d 1 = some n)
    (hfree : b.isFree n = true) : (within scope .move p d n none).Legal b scope where
  kind_eq_move_iff := iff_of_true rfl rfl
  passable := hp
  target := hn
  free := hfree
  beyond q hq := by cases hq
  within := rfl

theorem legal_push (scope : Scope) (hp : b.isPassable p = true) (hn : b.ahead p d 1 = some n)
    (hfree : b.isFree n = true) (hq : b.ahead p d 2 = some q) (hpass : b.isPassable q = true) :
    (within scope .push p d n (some q)).Legal b scope where
  kind_eq_move_iff := iff_of_false (by rintro ⟨⟩) (by rintro ⟨⟩)
  passable := hp
  target := hn
  free := hfree
  beyond c hc := by
    obtain rfl := Option.some.inj hc
    exact ⟨hq, hpass⟩
  within := rfl

end Rule

namespace Board

variable {b : Board} {scope : Scope} {rules : List Rule} {p q : Pos} {d : Direction} {n : Nat}

theorem ahead_of_isFree (h : p.Ahead d n q) (hfree : b.isFree q = true) :
    b.ahead p d n = some q := by
  obtain ⟨t, ht, -⟩ := isFree_iff.1 hfree
  exact ahead_eq_some_iff.2 ⟨h, lt_of_get? ht⟩

/-- A keeper on the cell can step in the direction: both cells can be stood on, and no wall was
drawn on the second. -/
def Steps (b : Board) (p : Pos) (d : Direction) : Prop :=
  b.isPassable p = true ∧ ∃ n, p.Ahead d 1 n ∧ b.isFree n = true

/-- The list has each legal step once, and the steps stand in order. -/
structure Enumerates (b : Board) (scope : Scope) (rules : List Rule) : Prop where
  ordered : rules.Pairwise Rule.Precedes
  move_iff : ∀ p d, (∃ r ∈ rules, r.IsFor p d .move) ↔ b.Steps p d
  push_iff : ∀ p d, (∃ r ∈ rules, r.IsFor p d .push) ↔
    b.Steps p d ∧ ∃ q, p.Ahead d 2 q ∧ b.isPassable q = true
  determined : ∀ r ∈ rules, r.Determined scope

theorem exists_move_iff (hmem : ∀ r, r ∈ rules ↔ r.Legal b scope) :
    (∃ r ∈ rules, r.IsFor p d .move) ↔ b.Steps p d := by
  constructor
  · intro h
    obtain ⟨r, hr, rfl, rfl, -⟩ := h
    have hlegal := (hmem r).1 hr
    exact ⟨hlegal.passable, r.target, hlegal.ahead_target, hlegal.free⟩
  · intro h
    obtain ⟨hp, n, hn, hfree⟩ := h
    have hlegal := Rule.legal_move scope hp (ahead_of_isFree hn hfree) hfree
    exact ⟨_, (hmem _).2 hlegal, rfl, rfl, rfl⟩

theorem exists_push_iff (hmem : ∀ r, r ∈ rules ↔ r.Legal b scope) :
    (∃ r ∈ rules, r.IsFor p d .push) ↔
      b.Steps p d ∧ ∃ q, p.Ahead d 2 q ∧ b.isPassable q = true := by
  constructor
  · intro h
    obtain ⟨r, hr, rfl, rfl, hkind⟩ := h
    have hlegal := (hmem r).1 hr
    obtain ⟨q, hq, hahead⟩ := hlegal.determined.beyond_of_push hkind
    exact ⟨⟨hlegal.passable, r.target, hlegal.ahead_target, hlegal.free⟩,
      q, hahead, (hlegal.beyond q hq).2⟩
  · intro h
    obtain ⟨⟨hp, n, hn, hfree⟩, q, hq, hpass⟩ := h
    have hlegal := Rule.legal_push scope hp (ahead_of_isFree hn hfree) hfree
      (ahead_of_isFree hq (isFree_of_isPassable hpass)) hpass
    exact ⟨_, (hmem _).2 hlegal, rfl, rfl, rfl⟩

theorem enumerates_of_fits (hb : b.Fits) (h : b.rules scope = .ok rules) :
    b.Enumerates scope rules where
  ordered := pairwise_rules hb h
  move_iff _ _ := exists_move_iff fun _ => mem_rules_iff hb h
  push_iff _ _ := exists_push_iff fun _ => mem_rules_iff hb h
  determined _ hr := ((mem_rules_iff hb h).1 hr).determined

/-- Listing the rules of a board that was read from a drawing ends well, and the list has exactly
the legal steps. -/
theorem exists_enumerates_rules (h : b.Drawn) (limit : Nat) :
    ∃ rules, b.rules (.ofBoard b limit) = .ok rules ∧
      b.Enumerates (.ofBoard b limit) rules :=
  have hrules := rules_eq_legalFrom h.fits (.ofBoard b limit)
  ⟨_, hrules, enumerates_of_fits h.fits hrules⟩

theorem exists_enumerates_rules_of_corridor :
    ∃ b, parse "@$." = .ok b ∧ b.Drawn ∧ ∃ rules, b.rules (.ofBoard b 3) = .ok rules ∧
      b.Enumerates (.ofBoard b 3) rules :=
  have hparse : parse "@$." = .ok ⟨[[.keeper, .box, .goal]], 3, by decide⟩ := rfl
  have hdrawn : Drawn ⟨[[.keeper, .box, .goal]], 3, by decide⟩ := ⟨"@$.", by decide, hparse⟩
  ⟨_, hparse, hdrawn, exists_enumerates_rules hdrawn 3⟩

end Board

end Sokoban
