import Sokoban.Fault

/-!
# Taking computations apart

A computation that answers has answered at every step, and a list of computations that all answer
answers with the list of their values. Everything said here is about `Result` alone.
-/

namespace Sokoban.Result

variable {α β : Type}

@[simp] theorem ok_bind (a : α) (f : α → Result β) : ((.ok a : Result α) >>= f) = f a := rfl

@[simp] theorem error_bind (e : Fault) (f : α → Result β) :
    ((.error e : Result α) >>= f) = .error e := rfl

@[simp] theorem pure_eq_ok (a : α) : (pure a : Result α) = .ok a := rfl

theorem bind_eq_ok {x : Result α} {f : α → Result β} {b : β} :
    (x >>= f) = .ok b ↔ ∃ a, x = .ok a ∧ f a = .ok b := by
  cases x with
  | ok a => simp
  | error e => simp

@[simp] theorem mapError_ok (g : Fault → Fault) (a : α) :
    (.ok a : Result α).mapError g = .ok a := rfl

@[simp] theorem mapError_error (g : Fault → Fault) (e : Fault) :
    (.error e : Result α).mapError g = .error (g e) := rfl

@[simp] theorem during_ok (a : Activity) (v : α) : during a (.ok v) = .ok v := rfl

theorem mapM_eq_map {xs : List α} {f : α → Result β} {g : α → β}
    (h : ∀ x ∈ xs, f x = .ok (g x)) : xs.mapM f = .ok (xs.map g) := by
  induction xs with
  | nil => rfl
  | cons x rest ih =>
      have hx : f x = .ok (g x) := h x List.mem_cons_self
      have hrest := ih fun y hy => h y (List.mem_cons_of_mem x hy)
      rw [List.mapM_cons, hx, ok_bind, hrest]
      rfl

/-- A list of computations fails with the first of them that does. -/
theorem mapM_eq_error {f : α → Result β} {before behind : List α} {x : α} {e : Fault}
    (hbefore : ∀ y ∈ before, ∃ b, f y = .ok b) (hx : f x = .error e) :
    (before ++ x :: behind).mapM f = .error e := by
  induction before with
  | nil =>
      rw [List.nil_append, List.mapM_cons, hx]
      rfl
  | cons y rest ih =>
      obtain ⟨⟨b, hy⟩, hrest⟩ := List.forall_mem_cons.1 hbefore
      rw [List.cons_append, List.mapM_cons, hy, ok_bind, ih hrest]
      rfl

theorem forM_eq_ok {xs : List α} {f : α → Result Unit} :
    xs.forM f = .ok () ↔ ∀ x ∈ xs, f x = .ok () := by
  induction xs with
  | nil => simp
  | cons x rest ih =>
      have hcons : (x :: rest).forM f = (f x >>= fun _ => rest.forM f) := rfl
      rw [hcons, bind_eq_ok, List.forall_mem_cons, ← ih]
      exact ⟨fun ⟨_, hx, hrest⟩ => ⟨hx, hrest⟩, fun ⟨hx, hrest⟩ => ⟨(), hx, hrest⟩⟩

/-- In a list of which not all members have a property there is a first that has it not. -/
theorem exists_first {P : α → Prop} {l : List α} (h : ¬ ∀ x ∈ l, P x) :
    ∃ before x behind, l = before ++ x :: behind ∧ (∀ y ∈ before, P y) ∧ ¬ P x := by
  induction l with
  | nil => exact absurd (List.forall_mem_nil P) h
  | cons x rest ih =>
      by_cases hx : P x
      · have hrest : ¬ ∀ y ∈ rest, P y := fun hall => h (List.forall_mem_cons.2 ⟨hx, hall⟩)
        obtain ⟨before, y, behind, rfl, hbefore, hy⟩ := ih hrest
        exact ⟨x :: before, y, behind, rfl, List.forall_mem_cons.2 ⟨hx, hbefore⟩, hy⟩
      · exact ⟨[], x, rest, rfl, List.forall_mem_nil P, hx⟩

/-- A list of checks fails with the first of them that does. -/
theorem forM_append_eq_error {before behind : List α} {x : α} {f : α → Result Unit} {e : Fault}
    (hbefore : ∀ y ∈ before, f y = .ok ()) (hx : f x = .error e) :
    (before ++ x :: behind).forM f = .error e := by
  induction before with
  | nil =>
      show (f x >>= fun _ => behind.forM f) = .error e
      rw [hx, error_bind]
  | cons y rest ih =>
      rw [List.forall_mem_cons] at hbefore
      show (f y >>= fun _ => (rest ++ x :: behind).forM f) = .error e
      rw [hbefore.1, ok_bind, ih hbefore.2]

/-- The computation is carried through, be it to a value or to an error. -/
def Answers (x : Result α) : Prop := ∀ c, x ≠ crash c

theorem answers_ok (a : α) : Answers (.ok a) := fun c h => by cases h

theorem answers_fail (i : Issue) : Answers (fail i : Result α) := fun c h => by cases h

theorem Answers.bind {x : Result α} {f : α → Result β} (hx : Answers x)
    (hf : ∀ a, Answers (f a)) : Answers (x >>= f) := by
  cases x with
  | ok a => exact hf a
  | error e =>
      rintro c h
      rw [error_bind] at h
      cases h
      exact hx c rfl

theorem Answers.exists_error {x : Result α} (hx : Answers x) {e : Fault} (h : x = .error e) :
    ∃ error, e = .error error := by
  cases e with
  | error error => exact ⟨error, rfl⟩
  | crash c => exact absurd h (hx c)

end Sokoban.Result
