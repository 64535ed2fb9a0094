import Sokoban.Proofs.Result
import Sokoban.Session

/-!
# What a computation ensures

A computation on a host whose state is known to be of some kind ends with an answer and in a state
that belong together. Such facts are put together along the computation.
-/

namespace Sokoban

variable {σ α β : Type} {P : σ → Prop}

/-- Begun in a state of some kind, a computation ends with an answer and in a state that belong
together. -/
def Ensures (P : σ → Prop) (x : StateM σ α) (Q : α → σ → Prop) : Prop :=
  ∀ s, P s → Q (x.run s).1 (x.run s).2

namespace Ensures

theorem mono {x : StateM σ α} {Q R : α → σ → Prop} (hx : Ensures P x Q)
    (h : ∀ a s, Q a s → R a s) : Ensures P x R :=
  fun s hs => h _ _ (hx s hs)

/-- What is known of the state may be narrowed down first. -/
theorem of_pre {x : StateM σ α} {Q : α → σ → Prop}
    (h : ∀ s, P s → ∃ P', P' s ∧ Ensures P' x Q) : Ensures P x Q := by
  intro s hs
  obtain ⟨P', hs', hx⟩ := h s hs
  exact hx s hs'

theorem pure {a : α} {Q : α → σ → Prop} (h : ∀ s, P s → Q a s) : Ensures P (pure a) Q := h

theorem bind {x : StateM σ α} {f : α → StateM σ β} {Q : α → σ → Prop} {R : β → σ → Prop}
    (hx : Ensures P x Q) (hf : ∀ a, Ensures (Q a) (f a) R) : Ensures P (x >>= f) R :=
  fun s hs => hf _ _ (hx s hs)

/-! ## Computations that may fail -/

variable {x : ExceptT Fault (StateM σ) α} {f : α → ExceptT Fault (StateM σ) β}

theorem ofResult (r : Result α) :
    Ensures P (Sokoban.ofResult r : ExceptT Fault (StateM σ) α).run fun a s => a = r ∧ P s :=
  .pure fun _ hs => ⟨rfl, hs⟩

theorem during {Q : Result α → σ → Prop} (a : Activity) (hx : Ensures P x.run Q) :
    Ensures P (whileDoing a x).run fun r s => ∃ answer, r = Result.during a answer ∧ Q answer s :=
  fun s hs => ⟨_, rfl, hx s hs⟩

/-- An activity is named only in an error. -/
theorem during_ok {a : α} {Q : σ → Prop} (activity : Activity)
    (hx : Ensures P x.run fun r s => r = .ok a ∧ Q s) :
    Ensures P (whileDoing activity x).run fun r s => r = .ok a ∧ Q s :=
  (hx.during activity).mono fun _ _ ⟨_, hr, hanswer, hs⟩ => ⟨by rw [hr, hanswer]; rfl, hs⟩

/-- A service that is not refused. -/
theorem ask_ok {y : StateM σ (Except String α)} {a : α} {Q : σ → Prop}
    (hy : Ensures P y fun r s => r = .ok a ∧ Q s) :
    Ensures P (ask y : ExceptT Fault (StateM σ) α).run fun r s => r = .ok a ∧ Q s := by
  refine Ensures.bind hy fun answer => ?_
  rintro s ⟨rfl, hs⟩
  exact ⟨rfl, hs⟩

theorem bind_run {Q : Result α → σ → Prop} {R : Result β → σ → Prop} (hx : Ensures P x.run Q)
    (hok : ∀ a, Ensures (Q (.ok a)) (f a).run R)
    (herror : ∀ e s, Q (.error e) s → R (.error e) s) : Ensures P (x >>= f).run R := by
  rw [ExceptT.run_bind]
  refine Ensures.bind hx fun r => ?_
  cases r with
  | ok a => exact hok a
  | error e => exact .pure fun s hs => herror e s hs

/-- After a step that answers in one way only, the computation goes on with that answer. -/
theorem bind_ok {a : α} {Q : σ → Prop} {R : Result β → σ → Prop}
    (hx : Ensures P x.run fun r s => r = .ok a ∧ Q s) (hf : Ensures Q (f a).run R) :
    Ensures P (x >>= f).run R := by
  refine hx.bind_run (fun b s hs => ?_) fun e s hs => ?_
  · obtain ⟨heq, hQ⟩ := hs
    cases heq
    exact hf s hQ
  · cases hs.1

theorem bind_error {e : Fault} {Q : σ → Prop}
    (hx : Ensures P x.run fun r s => r = .error e ∧ Q s) :
    Ensures P (x >>= f).run fun r s => r = .error e ∧ Q s := by
  refine hx.bind_run (fun b s hs => ?_) fun e' s hs => ?_
  · cases hs.1
  · obtain ⟨heq, hQ⟩ := hs
    cases heq
    exact ⟨rfl, hQ⟩

/-! A computation may also be known to answer, whatever the answer is. -/

theorem during_answers {Q : σ → Prop} (activity : Activity)
    (hx : Ensures P x.run fun r s => (∃ a, r = .ok a) ∧ Q s) :
    Ensures P (whileDoing activity x).run fun r s => (∃ a, r = .ok a) ∧ Q s := by
  refine (hx.during activity).mono ?_
  rintro _ s ⟨_, rfl, ⟨a, rfl⟩, hs⟩
  exact ⟨⟨a, rfl⟩, hs⟩

theorem bind_answers {Q : σ → Prop} {R : Result β → σ → Prop}
    (hx : Ensures P x.run fun r s => (∃ a, r = .ok a) ∧ Q s)
    (hf : ∀ a, Ensures Q (f a).run R) : Ensures P (x >>= f).run R := by
  refine hx.bind_run (fun a s hs => hf a s hs.2) fun e s hs => ?_
  obtain ⟨⟨a, ha⟩, -⟩ := hs
  cases ha

theorem bind_lift {y : StateM σ α} {Q : α → σ → Prop} {R : Result β → σ → Prop}
    (hy : Ensures P y Q) (hf : ∀ a, Ensures (Q a) (f a).run R) :
    Ensures P (ExceptT.lift y >>= f).run R :=
  fun s hs => hf _ _ (hy s hs)

/-! ## Entries in the journal -/

variable [Journal (StateM σ)]

theorem note (h : ∀ e, Ensures P (Journal.record e : StateM σ Unit) fun _ => P) (level : Level)
    (message : String) :
    Ensures P (note level message : ExceptT Fault (StateM σ) Unit).run
      fun r s => r = .ok () ∧ P s :=
  fun s hs => ⟨rfl, h ⟨level, message⟩ s hs⟩

theorem recordAll (h : ∀ e, Ensures P (Journal.record e : StateM σ Unit) fun _ => P)
    (entries : List Entry) :
    Ensures P (Session.recordAll entries : ExceptT Fault (StateM σ) Unit).run
      fun r s => r = .ok () ∧ P s := by
  induction entries with
  | nil => exact fun s hs => ⟨rfl, hs⟩
  | cons e rest ih => exact (note h e.level e.message).bind_ok ih

end Ensures

/-! ## What holds if there is an answer -/

variable {x : ExceptT Fault (StateM σ) α} {f : α → ExceptT Fault (StateM σ) β}

/-- Begun in a state of some kind, a computation fails, or it ends with an answer and in a state
that belong together. -/
def WhenAnswered (P : σ → Prop) (x : ExceptT Fault (StateM σ) α) (Q : α → σ → Prop) : Prop :=
  Ensures P x.run fun r s => ∀ a, r = .ok a → Q a s

namespace WhenAnswered

theorem bind {Q : α → σ → Prop} {R : β → σ → Prop}
    (hx : WhenAnswered P x Q) (hf : ∀ a, WhenAnswered (Q a) (f a) R) :
    WhenAnswered P (x >>= f) R := by
  refine Ensures.bind_run hx (fun a s hs => hf a s (hs a rfl)) fun e s _ b hb => ?_
  cases hb

theorem during {activity : Activity} {Q : α → σ → Prop} (hx : WhenAnswered P x Q) :
    WhenAnswered P (whileDoing activity x) Q := by
  refine (Ensures.during activity hx).mono ?_
  rintro _ s ⟨answer, rfl, hs⟩ a ha
  cases answer with
  | ok b => exact hs a ha
  | error e => cases ha

end WhenAnswered

end Sokoban
