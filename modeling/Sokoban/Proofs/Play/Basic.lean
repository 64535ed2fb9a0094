import Mathlib.Data.List.Chain
import Sokoban.Proofs.Board.Drawn
import Sokoban.Proofs.Model.Compiled

/-!
# Plays

In a play any enabled rule may fire at each step, not only the first one as in the run. What holds
at the start and is kept by every firing holds in all states of a play; on a board that was read
from a drawing each firing is a legal step.
-/

namespace Sokoban

namespace System

def Fires (s : System) (x y : State) : Prop := ∃ r ∈ s.rules, r.fire x = some y

/-- The states of a play, from the start on: each comes from the one before by some rule. -/
structure IsPlay (s : System) (play : List State) : Prop where
  start : play.head? = some s.start
  fires : play.IsChain s.Fires

/-- What holds at the start and is kept by every rule holds throughout a play. -/
theorem IsPlay.forall_mem {s : System} {play : List State} (h : s.IsPlay play)
    {P : State → Prop} (hstart : P s.start) (hstep : ∀ x y, P x → s.Fires x y → P y) :
    ∀ x ∈ play, P x := by
  refine h.fires.induction P play (fun x y hxy hx => hstep x y hx hxy) fun hne => ?_
  have hhead : play.head hne = s.start := by
    rw [List.head_eq_iff_head?_eq_some]
    exact h.start
  exact hhead ▸ hstart

theorem IsPlay.fires_getElem? {s : System} {play : List State} (h : s.IsPlay play) {i : Nat}
    {x y : State} (hx : play[i]? = some x) (hy : play[i + 1]? = some y) : s.Fires x y := by
  obtain ⟨hi, rfl⟩ := List.getElem?_eq_some_iff.1 hx
  obtain ⟨hi', rfl⟩ := List.getElem?_eq_some_iff.1 hy
  exact List.isChain_iff_getElem.1 h.fires i hi'

/-- What holds in one state of a play and is kept by every rule holds from then on. -/
theorem IsPlay.of_getElem? {s : System} {play : List State} (h : s.IsPlay play)
    {P : State → Prop} (hstep : ∀ x y, P x → s.Fires x y → P y) {i j : Nat} {x y : State}
    (hij : i ≤ j) (hx : play[i]? = some x) (hy : play[j]? = some y) (hP : P x) : P y := by
  induction j, hij using Nat.le_induction generalizing y with
  | base =>
      rw [hx] at hy
      exact Option.some.inj hy ▸ hP
  | succ j _ ih =>
      have hlt : j < play.length := by
        have := (List.getElem?_eq_some_iff.1 hy).1
        omega
      have hlast : play[j]? = some play[j] := List.getElem?_eq_getElem hlt
      exact hstep _ _ (ih hlast) (h.fires_getElem? hlast hy)

theorem enabled_eq_nil_iff {s : System} {x : State} :
    s.enabled x = [] ↔ ∀ y, ¬ s.Fires x y := by
  unfold enabled
  rw [List.filter_eq_nil_iff]
  constructor
  · rintro h y ⟨r, hr, hfire⟩
    exact h r hr (Rule.fire_eq_some_iff.1 hfire).1
  · intro h r hr henabled
    exact h (r.apply x) ⟨r, hr, Rule.fire_eq_some_iff.2 ⟨henabled, rfl⟩⟩

/-- Unless it is at its end, the run makes a step that a play may make. -/
theorem fires_successor {s : System} {x : State} (h : s.enabled x ≠ []) :
    s.Fires x (s.successor x) := by
  unfold successor
  cases hfound : s.rules.findSome? (·.fire x) with
  | some y =>
      obtain ⟨r, hr, hfire⟩ := List.exists_of_findSome?_eq_some hfound
      exact ⟨r, hr, hfire⟩
  | none =>
      rw [List.findSome?_eq_none_iff] at hfound
      refine absurd (enabled_eq_nil_iff.2 ?_) h
      rintro y ⟨r, hr, hfire⟩
      rw [hfound r hr] at hfire
      cases hfire

theorem isPlay_pair {s : System} (h : s.enabled s.start ≠ []) :
    s.IsPlay [s.start, s.successor s.start] :=
  ⟨rfl, List.isChain_pair.2 (fires_successor h)⟩

/-- The legal rule behind a step of a system that is built from a board. -/
theorem BuiltFrom.exists_legal {s : System} {b : Board} {limit : Nat} {keep : Option Pos}
    {goal : Goal} (h : s.BuiltFrom b limit keep goal) (hb : b.Fits) {x y : State}
    (hxy : s.Fires x y) :
    ∃ r : Rule, r.Legal b (Scope.ofBoard b limit) ∧ r.enabled x = true ∧ y = r.apply x := by
  obtain ⟨r, hr, hfire⟩ := hxy
  obtain ⟨henabled, rfl⟩ := Rule.fire_eq_some_iff.1 hfire
  exact ⟨r, h.legal hb hr, henabled, rfl⟩

/-- No content is added or lost in a play. -/
theorem BuiltFrom.count_eq {s : System} {b : Board} {limit : Nat} {keep : Option Pos}
    {goal : Goal} (h : s.BuiltFrom b limit keep goal) (hb : b.Fits) {play : List State}
    (hplay : s.IsPlay play) {x : State} (hx : x ∈ play) (c : Content) :
    x.count c = s.start.count c := by
  refine hplay.forall_mem (P := fun x => x.count c = s.start.count c) rfl ?_ x hx
  rintro y _ hy hstep
  obtain ⟨r, hr, henabled, rfl⟩ := h.exists_legal hb hstep
  rw [Rule.count_apply hr.distinct henabled, hy]

theorem BuiltFrom.fires_of_mem_boxes {s : System} {b : Board} {limit : Nat} {keep : Option Pos}
    {goal : Goal} (h : s.BuiltFrom b limit keep goal) (hb : b.Fits) {p : Pos} (hp : p ∈ b.boxes)
    {x y : State} (hxy : s.Fires x y) :
    y.get? p = x.get? p ∨
      (y.get? p = some .keeper ∧ (x.get? p = some .box ∨ x.get? p = some .empty)) := by
  obtain ⟨r, hr, hfire⟩ := hxy
  exact (h.legal hb hr).fire_of_mem_boxes hp hfire

end System

end Sokoban
