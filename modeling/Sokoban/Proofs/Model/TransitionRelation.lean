import Sokoban.Proofs.Board.Drawn
import Sokoban.Proofs.Model.Compiled
import Sokoban.Proofs.Play.Run

/-!
# The written model and the simulator are one transition system

The model that is written for the checker has a formula for the start and a list of cases for the
steps; the simulator has a start and a successor. Over the declared cells both describe the same
start, the same steps and the same run: each formula has a value there, and it is the simulator's.
-/

namespace Sokoban

open Formula

/-- The cells of a state are exactly the declared ones. -/
def State.Covers (s : State) (scope : Scope) : Prop := s.cells.keys = scope.cells

/-- What makes the formulas of a rule speak of its firing: it assigns different cells, with its
frame it reaches every declared cell, and the counter cannot overflow where it is enabled. -/
structure Rule.Faithful (r : Rule) (scope : Scope) : Prop where
  distinct : r.Distinct
  partitions : r.Partitions scope
  bounded : r.limit < Word.bound

namespace Rule.Faithful

variable {r : Rule} {scope : Scope} {s t : State}

theorem exists_guard (hr : r.Faithful scope) (hs : s.Covers scope) :
    ∃ g, r.guard scope = .ok g ∧ g.value s.value? = .ok (.bool (r.enabled s)) :=
  Rule.exists_guard (fun p hp => (hr.partitions.covers p).2 (.inl hp)) hs

theorem steps_lt (hr : r.Faithful scope) (h : r.enabled s = true) :
    s.steps + 1 < Word.bound := by
  have hlimit := (enabled_iff.1 h).1
  have hbound := hr.bounded
  omega

theorem exists_update (hr : r.Faithful scope) (hs : s.Covers scope) (ht : t.Covers scope)
    (h : r.enabled s = true) :
    ∃ u, r.update scope = .ok u ∧
      u.value (s.stepValue? t) = .ok (.bool (decide (r.fire s = some t))) :=
  Rule.exists_update hr.distinct hr.partitions hs ht h (hr.steps_lt h)

end Rule.Faithful

namespace System

/-- A list of cases relates two states by the update of the first rule whose guard is true, and if
all guards are false by the stuttering step. -/
def CaseHolds (scope : Scope) (s t : State) : List Rule → Prop
  | [] => ∃ u, scope.stutter = .ok u ∧ u.Holds (s.stepValue? t)
  | r :: rest => ∃ g, r.guard scope = .ok g ∧
      ((g.Holds s.value? ∧ ∃ u, r.update scope = .ok u ∧ u.Holds (s.stepValue? t)) ∨
        (g.value s.value? = .ok (.bool false) ∧ CaseHolds scope s t rest))

/-- The transition relation of the model that is written for a system. -/
def Trans (m : System) (s t : State) : Prop := CaseHolds m.scope s t m.rules

theorem exists_stutter_iff {scope : Scope} {s t : State} (hs : s.Covers scope)
    (ht : t.Covers scope) :
    (∃ u, scope.stutter = .ok u ∧ u.Holds (s.stepValue? t)) ↔ t = s := by
  obtain ⟨u, hu, hvalue⟩ := Scope.exists_stutter hs ht
  simp [hu, Holds, hvalue]

theorem exists_update_iff {r : Rule} {scope : Scope} {s t : State} (hr : r.Faithful scope)
    (hs : s.Covers scope) (ht : t.Covers scope) (h : r.enabled s = true) :
    (∃ u, r.update scope = .ok u ∧ u.Holds (s.stepValue? t)) ↔ r.fire s = some t := by
  obtain ⟨u, hu, hvalue⟩ := hr.exists_update hs ht h
  simp [hu, Holds, hvalue]

/-- The cases of a list of rules relate a state to where the first enabled rule leads. -/
theorem caseHolds_iff {scope : Scope} {s t : State} (hs : s.Covers scope) (ht : t.Covers scope)
    {rules : List Rule} (hrules : ∀ r ∈ rules, r.Faithful scope) :
    CaseHolds scope s t rules ↔ t = (rules.findSome? (·.fire s)).getD s := by
  induction rules with
  | nil => exact exists_stutter_iff hs ht
  | cons r rest ih =>
      obtain ⟨hr, hrest⟩ := List.forall_mem_cons.1 hrules
      obtain ⟨g, hg, hvalue⟩ := hr.exists_guard hs
      -- the guard has a value, so either its update decides or the rest of the cases does
      by_cases henabled : r.enabled s = true
      · have hfire : r.fire s = some (r.apply s) := if_pos henabled
        have hupdate := exists_update_iff hr hs ht henabled
        rw [List.findSome?_cons, hfire, Option.getD_some]
        rw [hfire, Option.some.injEq, eq_comm] at hupdate
        rw [← hupdate]
        simp [CaseHolds, hg, Holds, hvalue, henabled]
      · have hfire : r.fire s = none := if_neg henabled
        rw [List.findSome?_cons, hfire, ← ih hrest]
        simp [CaseHolds, hg, Holds, hvalue, henabled]

/-- The formulas of a system say of the states over its declared cells what its simulator does with
them. -/
structure Agrees (m : System) : Prop where
  initial : ∀ s : State, s.Covers m.scope →
    m.initial.value s.value? = .ok (.bool (decide (s = m.start)))
  guard : ∀ r ∈ m.rules, ∀ s : State, s.Covers m.scope →
    ∃ g, r.guard m.scope = .ok g ∧ g.value s.value? = .ok (.bool (r.enabled s))
  update : ∀ r ∈ m.rules, ∀ s t : State, s.Covers m.scope → t.Covers m.scope →
    r.enabled s = true → s.steps + 1 < Word.bound ∧
      ∃ u, r.update m.scope = .ok u ∧
        u.value (s.stepValue? t) = .ok (.bool (decide (r.fire s = some t)))
  stutter : ∀ s t : State, s.Covers m.scope → t.Covers m.scope →
    ∃ u, m.scope.stutter = .ok u ∧
      u.value (s.stepValue? t) = .ok (.bool (decide (t = s)))
  trans : ∀ s t : State, s.Covers m.scope → t.Covers m.scope →
    (m.Trans s t ↔ t = m.successor s)
  run : ∀ σ : Nat → State, (∀ n, (σ n).Covers m.scope) →
    ((m.initial.Holds (σ 0).value? ∧ ∀ n, m.Trans (σ n) (σ (n + 1))) ↔
      ∀ n, (m.run n).getLast? = some (σ n))
  trace : ∀ n : Nat, Word.Fits ((n + 1) * stateSize) → m.trace n = .ok (m.run n)

variable {m : System} {b : Board} {limit : Nat} {keep : Option Pos} {goal : Goal}

theorem BuiltFrom.faithful (h : m.BuiltFrom b limit keep goal) (hb : b.Fits)
    (hlimit : limit < Word.bound) {r : Rule} (hr : r ∈ m.rules) : r.Faithful m.scope where
  distinct := (h.legal hb hr).distinct
  partitions := h.partitions hb hr
  bounded := h.limit_eq hb hr ▸ hlimit

theorem BuiltFrom.value_initial (h : m.BuiltFrom b limit keep goal) {s : State}
    (hs : s.Covers m.scope) : m.initial.value s.value? = .ok (.bool (decide (s = m.start))) := by
  have hscope : ∀ p ∈ m.start.cells.keys, p ∈ m.scope.cells := fun p hp => h.keys_start ▸ hp
  have hkeys : ∀ p ∈ m.start.cells.keys, p ∈ s.cells.keys := fun p hp => hs ▸ hscope p hp
  obtain ⟨f, hf, hdecided, -⟩ := State.exists_formula hscope hkeys
  rw [h.initial] at hf
  obtain rfl := Except.ok.inj hf
  exact hdecided.value_eq_decide (State.holds_formula_iff h.initial h.keys_start hs)

theorem BuiltFrom.run_iff (h : m.BuiltFrom b limit keep goal) (hb : b.Fits)
    (hlimit : limit < Word.bound) {σ : Nat → State} (hσ : ∀ n, (σ n).Covers m.scope) :
    (m.initial.Holds (σ 0).value? ∧ ∀ n, m.Trans (σ n) (σ (n + 1))) ↔
      ∀ n, (m.run n).getLast? = some (σ n) := by
  have hinitial : m.initial.Holds (σ 0).value? ↔ σ 0 = m.start := by
    rw [Holds, h.value_initial (hσ 0)]
    simp
  have htrans : ∀ n, m.Trans (σ n) (σ (n + 1)) ↔ σ (n + 1) = m.successor (σ n) := fun n =>
    caseHolds_iff (hσ n) (hσ (n + 1)) fun r hr => h.faithful hb hlimit hr
  simp only [hinitial, htrans, getLast?_run, Option.some.injEq]
  rw [← forall_eq_stateAt_iff]
  exact forall_congr' fun n => eq_comm

/-- The written model and the simulator of a compiled system are one transition system. -/
theorem agrees_of_compiledFrom (hb : b.Drawn) (hlimit : limit < Word.bound)
    (hm : m.CompiledFrom b limit) : m.Agrees := by
  obtain ⟨keep, goal, h, -⟩ := hm.exists_builtFrom hb.fits
  have hfaithful : ∀ r ∈ m.rules, r.Faithful m.scope := fun r hr => h.faithful hb.fits hlimit hr
  exact {
    initial := fun s hs => h.value_initial hs
    guard := fun r hr s hs => (hfaithful r hr).exists_guard hs
    update := fun r hr s t hs ht henabled =>
      ⟨(hfaithful r hr).steps_lt henabled, (hfaithful r hr).exists_update hs ht henabled⟩
    stutter := fun s t hs ht => Scope.exists_stutter hs ht
    trans := fun s t hs ht => caseHolds_iff hs ht hfaithful
    run := fun σ hσ => h.run_iff hb.fits hlimit hσ
    trace := fun n hn => trace_eq_run hn }

theorem agrees_of_corridor :
    ∃ (b : Board) (m : System), b.Drawn ∧ m.CompiledFrom b 3 ∧ m.rules ≠ [] ∧ m.Agrees :=
  have hb : Board.Drawn ⟨[[.keeper, .box, .goal]], 3, by decide⟩ := ⟨"@$.", by decide, rfl⟩
  have hm : ∃ m, compile ⟨[[.keeper, .box, .goal]], 3, by decide⟩ 3 = .ok m ∧ m.rules ≠ [] :=
    ⟨_, rfl, by decide⟩
  hm.elim fun m hm => ⟨_, m, hb, .whole hm.1, hm.2,
    agrees_of_compiledFrom hb (by decide) (.whole hm.1)⟩

end System

end Sokoban
