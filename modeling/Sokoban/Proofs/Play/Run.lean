import Sokoban.Model.System

/-!
# The run of a system

The state of the run after a number of steps, which is the last one of `System.run`. A sequence of
states is the run exactly when it begins at the start and goes from each state to its successor.
-/

namespace Sokoban.System

def stateAfter (m : System) : Nat → State → State
  | 0, s => s
  | n + 1, s => m.stateAfter n (m.successor s)

def stateAt (m : System) (n : Nat) : State := m.stateAfter n m.start

theorem stateAfter_succ (m : System) (n : Nat) (s : State) :
    m.stateAfter (n + 1) s = m.successor (m.stateAfter n s) := by
  induction n generalizing s with
  | zero => rfl
  | succ n ih => exact ih (m.successor s)

theorem stateAt_succ (m : System) (n : Nat) : m.stateAt (n + 1) = m.successor (m.stateAt n) :=
  m.stateAfter_succ n m.start

theorem getLast?_runFrom (m : System) (n : Nat) (s : State) :
    (m.runFrom n s).getLast? = some (m.stateAfter n s) := by
  induction n generalizing s with
  | zero => rfl
  | succ n ih =>
      rw [runFrom, List.getLast?_cons, ih]
      rfl

theorem getLast?_run (m : System) (n : Nat) : (m.run n).getLast? = some (m.stateAt n) :=
  m.getLast?_runFrom n m.start

theorem length_runFrom (m : System) (n : Nat) (s : State) : (m.runFrom n s).length = n + 1 := by
  induction n generalizing s with
  | zero => rfl
  | succ n ih => rw [runFrom, List.length_cons, ih]

theorem getElem?_runFrom (m : System) {n i : Nat} (h : i ≤ n) (s : State) :
    (m.runFrom n s)[i]? = some (m.stateAfter i s) := by
  induction n generalizing i s with
  | zero =>
      obtain rfl : i = 0 := by omega
      rfl
  | succ n ih =>
      cases i with
      | zero => rfl
      | succ i =>
          rw [runFrom, List.getElem?_cons_succ]
          exact ih (by omega) (m.successor s)

theorem length_run (m : System) (n : Nat) : (m.run n).length = n + 1 :=
  m.length_runFrom n m.start

theorem getElem?_run (m : System) {n i : Nat} (h : i ≤ n) : (m.run n)[i]? = some (m.stateAt i) :=
  m.getElem?_runFrom h m.start

theorem mem_run_iff {m : System} {n : Nat} {s : State} :
    s ∈ m.run n ↔ ∃ i ≤ n, m.stateAt i = s := by
  constructor
  · intro h
    obtain ⟨i, hi⟩ := List.getElem?_of_mem h
    have hlt : i < (m.run n).length := (List.getElem?_eq_some_iff.1 hi).1
    have hle : i ≤ n := by
      rw [length_run] at hlt
      omega
    rw [getElem?_run m hle] at hi
    exact ⟨i, hle, Option.some.inj hi⟩
  · rintro ⟨i, hi, rfl⟩
    exact List.mem_of_getElem? (m.getElem?_run hi)

theorem forall_eq_stateAt_iff {m : System} {σ : Nat → State} :
    (∀ n, σ n = m.stateAt n) ↔ σ 0 = m.start ∧ ∀ n, σ (n + 1) = m.successor (σ n) := by
  constructor
  · intro h
    refine ⟨h 0, fun n => ?_⟩
    rw [h, h, stateAt_succ]
  · rintro ⟨hstart, hstep⟩ n
    induction n with
    | zero => exact hstart
    | succ n ih => rw [hstep, ih, stateAt_succ]

/-- The list of the run is given out as long as there is space for it. -/
theorem trace_eq_run {m : System} {n : Nat} (h : Word.Fits ((n + 1) * stateSize)) :
    m.trace n = .ok (m.run n) := by
  have hword : ¬ Word.bound ≤ n + 1 := by
    have hbound := Word.bound_eq
    obtain ⟨-, hlt⟩ := h
    unfold stateSize Word.half at *
    omega
  unfold trace
  rw [if_neg hword, if_pos h]

/-- Whatever list is given out, it is the run. -/
theorem eq_run_of_trace {m : System} {n : Nat} {states : List State}
    (h : m.trace n = .ok states) : states = m.run n := by
  unfold trace at h
  split at h
  · cases h
  · split at h
    · exact (Except.ok.inj h).symm
    · cases h

theorem trace_getElem? {m : System} {n i : Nat} {states : List State}
    (h : m.trace n = .ok states) (hi : i ≤ n) : states[i]? = some (m.stateAt i) := by
  rw [eq_run_of_trace h]
  exact m.getElem?_run hi

theorem mem_trace_iff {m : System} {n : Nat} {states : List State} {s : State}
    (h : m.trace n = .ok states) : s ∈ states ↔ ∃ i ≤ n, m.stateAt i = s := by
  rw [eq_run_of_trace h]
  exact mem_run_iff

theorem exists_mem_trace_iff {m : System} {n : Nat} {states : List State} {P : State → Prop}
    (h : m.trace n = .ok states) : (∃ s ∈ states, P s) ↔ ∃ i ≤ n, P (m.stateAt i) := by
  constructor
  · rintro ⟨s, hs, hP⟩
    obtain ⟨i, hi, rfl⟩ := (mem_trace_iff h).1 hs
    exact ⟨i, hi, hP⟩
  · rintro ⟨i, hi, hP⟩
    exact ⟨_, (mem_trace_iff h).2 ⟨i, hi, rfl⟩, hP⟩

/-- A list that takes more than half a word of bytes is not given out. -/
theorem exists_trace_crash {m : System} {n : Nat} (h : ¬ Word.Fits ((n + 1) * stateSize)) :
    ∃ c, m.trace n = Result.crash c := by
  unfold trace
  by_cases hword : Word.bound ≤ n + 1
  · exact ⟨.addOverflow, if_pos hword⟩
  · rw [if_neg hword]
    exact ⟨.capacityOverflow, if_neg h⟩

end Sokoban.System
