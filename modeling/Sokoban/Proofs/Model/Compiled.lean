import Sokoban.Model.Script
import Sokoban.Proofs.Model.LegalRules
import Sokoban.Proofs.Model.Start
import Sokoban.Proofs.Model.Validation

/-!
# Compiled systems

What a system built from a board consists of, whether for the whole board or for a pair: the board's
free cells, its start, and its legal steps. Its rules assign and hold declared cells only, so on a
board that fits no check but that of the goal can fail.
-/

namespace Sokoban

theorem Rule.Legal.partitions {b : Board} {limit : Nat} {r : Rule}
    (h : r.Legal b (Scope.ofBoard b limit)) : r.Partitions (Scope.ofBoard b limit) where
  nodup := by
    rw [h.within]
    exact (PosSet.nodup_toList _).filter _
  disjoint := fun p hp => (h.mem_frame_iff.1 hp).2
  covers := by
    intro p
    rw [h.mem_frame_iff]
    constructor
    · intro hp
      by_cases hassigned : p ∈ r.assigned
      · exact .inl hassigned
      · exact .inr ⟨hp, hassigned⟩
    · rintro (hp | hp)
      · exact Scope.mem_ofBoard_iff.2 (h.isFree_of_mem_assigned hp)
      · exact hp.1

namespace System

structure BuiltFrom (s : System) (b : Board) (limit : Nat) (keep : Option Pos) (goal : Goal) :
    Prop where
  scope : s.scope = Scope.ofBoard b limit
  start : s.start = State.initial b keep
  initial : s.start.formula s.scope = .ok s.initial
  rules : b.rules s.scope = .ok s.rules
  goal : s.goal = goal

/-- A system that is compiled from a board, for the whole board or for a pair. -/
inductive CompiledFrom (s : System) (b : Board) (limit : Nat) : Prop
  | whole (h : compile b limit = .ok s)
  | pair (p : Pair) (h : compilePair b p limit = .ok s)

namespace BuiltFrom

variable {s : System} {b : Board} {limit : Nat} {keep : Option Pos} {goal : Goal}

theorem keys_start (h : s.BuiltFrom b limit keep goal) : s.start.cells.keys = s.scope.cells := by
  rw [h.start, h.scope, State.keys_initial]

theorem legal (h : s.BuiltFrom b limit keep goal) (hb : b.Fits) {r : Rule} (hr : r ∈ s.rules) :
    r.Legal b (Scope.ofBoard b limit) :=
  h.scope ▸ (Board.mem_rules_iff hb h.rules).1 hr

theorem mem_rules_of_legal (h : s.BuiltFrom b limit keep goal) (hb : b.Fits) {r : Rule}
    (hr : r.Legal b (Scope.ofBoard b limit)) : r ∈ s.rules :=
  (Board.mem_rules_iff hb h.rules).2 (h.scope ▸ hr)

theorem rules_eq (h : s.BuiltFrom b limit keep goal) (hb : b.Fits) :
    s.rules = b.departures.flatMap fun c => b.legalFrom (Scope.ofBoard b limit) c.1 c.2 := by
  have hrules := h.rules
  rw [h.scope, Board.rules_eq_legalFrom hb] at hrules
  exact (Except.ok.inj hrules).symm

theorem partitions (h : s.BuiltFrom b limit keep goal) (hb : b.Fits) {r : Rule}
    (hr : r ∈ s.rules) : r.Partitions s.scope :=
  h.scope ▸ (h.legal hb hr).partitions

theorem limit_eq (h : s.BuiltFrom b limit keep goal) (hb : b.Fits) {r : Rule}
    (hr : r ∈ s.rules) : r.limit = limit :=
  (h.legal hb hr).limit_eq

/-- Of the checks on a built system only that of the goal is open. -/
theorem validate_eq (h : s.BuiltFrom b limit keep goal) (hb : b.Fits) :
    s.validate = s.validateGoal := by
  have hstart : s.validateStart = .ok () := validateStart_eq_ok h.keys_start h.initial
  have hrules : s.rules.forM (validateRule s.scope) = .ok () :=
    Result.forM_eq_ok.2 fun r hr => validateRule_eq_ok_iff.2 (h.partitions hb hr)
  unfold validate
  rw [hstart, Result.ok_bind]
  cases hgoal : s.validateGoal with
  | ok u => exact hrules
  | error e => rfl

end BuiltFrom

theorem exists_build {b : Board} (hb : b.Fits) (limit : Nat) (keep : Option Pos) (goal : Goal) :
    ∃ s : System, s.BuiltFrom b limit keep goal ∧
      build b limit keep goal = (Result.during .compiling s.validateGoal).map fun _ => s := by
  have hkeys : ∀ p ∈ (State.initial b keep).cells.keys, p ∈ (Scope.ofBoard b limit).cells := by
    rw [State.keys_initial b keep limit]
    exact fun p hp => hp
  obtain ⟨initial, hinitial⟩ :
      ∃ f, (State.initial b keep).formula (Scope.ofBoard b limit) = .ok f :=
    ⟨_, State.formula_eq hkeys⟩
  obtain ⟨rules, hrules⟩ : ∃ rules, b.rules (Scope.ofBoard b limit) = .ok rules :=
    ⟨_, Board.rules_eq_legalFrom hb _⟩
  have hbuilt : BuiltFrom ⟨Scope.ofBoard b limit, State.initial b keep, initial, rules, goal⟩
      b limit keep goal := ⟨rfl, rfl, hinitial, hrules, rfl⟩
  refine ⟨_, hbuilt, ?_⟩
  unfold build
  dsimp only
  rw [hinitial, Result.ok_bind, hrules, Result.ok_bind, hbuilt.validate_eq hb]
  cases validateGoal _ <;> rfl

theorem builtFrom_of_build {b : Board} (hb : b.Fits) {limit : Nat} {keep : Option Pos}
    {goal : Goal} {s : System} (h : build b limit keep goal = .ok s) :
    s.BuiltFrom b limit keep goal ∧ ∀ p ∈ goal.cells, p ∈ s.scope.cells := by
  obtain ⟨s', hs', hbuild⟩ := exists_build hb limit keep goal
  rw [h] at hbuild
  cases hgoal : s'.validateGoal with
  | error e =>
      rw [hgoal] at hbuild
      cases hbuild
  | ok u =>
      rw [hgoal] at hbuild
      obtain rfl := Except.ok.inj hbuild
      exact ⟨hs', hs'.goal ▸ validateGoal_eq_ok_iff.1 hgoal⟩

theorem compilePair_of_mem_boxes {pair : Pair} (h : pair.boxed ∈ b.boxes) (limit : Nat) :
    compilePair b pair limit = build b limit (some pair.boxed) (.pair pair) := by
  obtain ⟨t, ht, hbox⟩ := Board.mem_positions_iff.1 h
  unfold compilePair
  rw [ht]
  exact if_pos hbox

theorem compilePair_of_not_mem_boxes {pair : Pair} (h : pair.boxed ∉ b.boxes) (limit : Nat) :
    compilePair b pair limit = Result.fail (.model (.noPairedBox pair.boxed)) := by
  unfold compilePair
  cases ht : b.get? pair.boxed with
  | none => rfl
  | some t =>
      have hbox : ¬ t.hasBox = true := fun hbox => h (Board.mem_positions_iff.2 ⟨t, ht, hbox⟩)
      exact if_neg hbox

theorem build_of_compilePair {pair : Pair} (h : compilePair b pair limit = .ok s) :
    pair.boxed ∈ b.boxes ∧ build b limit (some pair.boxed) (.pair pair) = .ok s := by
  by_cases hboxed : pair.boxed ∈ b.boxes
  · rw [compilePair_of_mem_boxes hboxed] at h
    exact ⟨hboxed, h⟩
  · rw [compilePair_of_not_mem_boxes hboxed] at h
    cases h

theorem builtFrom_of_compilePair (hb : b.Fits) {pair : Pair}
    (h : compilePair b pair limit = .ok s) :
    s.BuiltFrom b limit (some pair.boxed) (.pair pair) :=
  (builtFrom_of_build hb (build_of_compilePair h).2).1

/-- A compiled system is built from its board: with all boxes, or with the box of a pair. -/
theorem CompiledFrom.exists_builtFrom {s : System} {b : Board} {limit : Nat} (hb : b.Fits)
    (h : s.CompiledFrom b limit) :
    ∃ keep goal, s.BuiltFrom b limit keep goal ∧ ∀ p ∈ goal.cells, p ∈ s.scope.cells := by
  cases h with
  | whole h => exact ⟨_, _, builtFrom_of_build hb h⟩
  | pair p h => exact ⟨_, _, builtFrom_of_build hb (build_of_compilePair h).2⟩

end System

end Sokoban
