import Sokoban.Proofs.Play.Basic
import Sokoban.Proofs.Play.Run

/-!
# The steps of the run

At each step the run fires the first enabled rule. Where none is enabled nothing changes, then and
ever after. So what every rule keeps holds all along the run.
-/

namespace Sokoban.System

variable {s : System} {x : State} {r : Rule}

def firing? (s : System) (x : State) : Option Rule := (s.enabled x).head?

theorem firing?_eq_find? (s : System) (x : State) :
    s.firing? x = s.rules.find? (·.enabled x) :=
  List.head?_filter

theorem firing?_eq_none_iff : s.firing? x = none ↔ s.enabled x = [] := List.head?_eq_none_iff

theorem mem_of_firing? (h : s.firing? x = some r) : r ∈ s.rules ∧ r.enabled x = true :=
  List.mem_filter.1 (List.mem_of_head? h)

theorem successor_eq (s : System) (x : State) :
    s.successor x = ((s.firing? x).map (·.apply x)).getD x := by
  rw [firing?_eq_find?]
  unfold successor
  induction s.rules with
  | nil => rfl
  | cons r rest ih =>
      rw [List.findSome?_cons, List.find?_cons]
      unfold Rule.fire
      cases r.enabled x with
      | true => rfl
      | false => exact ih

theorem successor_of_firing? (h : s.firing? x = some r) : s.successor x = r.apply x := by
  rw [successor_eq, h]
  rfl

theorem successor_of_enabled_eq_nil (h : s.enabled x = []) : s.successor x = x := by
  rw [successor_eq, firing?_eq_none_iff.2 h]
  rfl

theorem BuiltFrom.enabled_eq_nil_of_le {b : Board} {limit : Nat} {keep : Option Pos} {goal : Goal}
    (h : s.BuiltFrom b limit keep goal) (hb : b.Fits) (hx : limit ≤ x.steps) :
    s.enabled x = [] := by
  unfold enabled
  rw [List.filter_eq_nil_iff]
  intro r hr henabled
  have hlt : x.steps < r.limit := (Rule.enabled_iff.1 henabled).1
  rw [h.limit_eq hb hr] at hlt
  omega

/-- Once no rule is enabled the run stands still. -/
theorem stateAt_of_enabled_eq_nil {k n : Nat} (h : s.enabled (s.stateAt k) = []) (hkn : k ≤ n) :
    s.stateAt n = s.stateAt k := by
  induction n, hkn using Nat.le_induction with
  | base => rfl
  | succ n _ ih => rw [stateAt_succ, ih, successor_of_enabled_eq_nil h]

/-- What holds at the start and is kept by every rule holds throughout the run. -/
theorem forall_stateAt {P : State → Prop} (hstart : P s.start)
    (hstep : ∀ x y, P x → s.Fires x y → P y) (n : Nat) : P (s.stateAt n) := by
  induction n with
  | zero => exact hstart
  | succ n ih =>
      rw [stateAt_succ]
      by_cases henabled : s.enabled (s.stateAt n) = []
      · rw [successor_of_enabled_eq_nil henabled]
        exact ih
      · exact hstep _ _ ih (fires_successor henabled)

/-- A step of the run at which a rule fires: the first of those that are enabled. -/
structure FiresAt (s : System) (n : Nat) (r : Rule) : Prop where
  first : (s.enabled (s.stateAt n)).head? = some r
  fire : r.fire (s.stateAt n) = some (s.stateAt (n + 1))

theorem firesAt_of_firing? {n : Nat} (h : s.firing? (s.stateAt n) = some r) : s.FiresAt n r := by
  refine ⟨h, Rule.fire_eq_some_iff.2 ⟨(mem_of_firing? h).2, ?_⟩⟩
  rw [stateAt_succ, successor_of_firing? h]

theorem firesAt_or_still (s : System) (n : Nat) :
    (∃ r, s.FiresAt n r) ∨
      (s.enabled (s.stateAt n) = [] ∧ s.stateAt (n + 1) = s.stateAt n) := by
  cases hfiring : s.firing? (s.stateAt n) with
  | some r => exact .inl ⟨r, firesAt_of_firing? hfiring⟩
  | none =>
      have hnil : s.enabled (s.stateAt n) = [] := firing?_eq_none_iff.1 hfiring
      exact .inr ⟨hnil, stateAt_of_enabled_eq_nil hnil (Nat.le_succ n)⟩

namespace FiresAt

variable {n : Nat}

theorem mem_rules (h : s.FiresAt n r) : r ∈ s.rules := (mem_of_firing? h.first).1

theorem enabled (h : s.FiresAt n r) : r.enabled (s.stateAt n) = true :=
  (Rule.fire_eq_some_iff.1 h.fire).1

theorem next (h : s.FiresAt n r) : s.stateAt (n + 1) = r.apply (s.stateAt n) :=
  (Rule.fire_eq_some_iff.1 h.fire).2

theorem unique {q : Rule} (hr : s.FiresAt n r) (hq : s.FiresAt n q) : r = q :=
  Option.some.inj (hr.first.symm.trans hq.first)

theorem enabled_ne_nil (h : s.FiresAt n r) : s.enabled (s.stateAt n) ≠ [] := by
  intro hnil
  have hfirst := h.first
  rw [hnil] at hfirst
  cases hfirst

theorem exists_pred (h : s.FiresAt (n + 1) r) : ∃ q, s.FiresAt n q := by
  rcases s.firesAt_or_still n with hfires | ⟨hnil, hstill⟩
  · exact hfires
  · exact absurd (hstill ▸ hnil) h.enabled_ne_nil

end FiresAt

end Sokoban.System
