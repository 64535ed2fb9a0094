import Sokoban.Session

/-!
# Computations on two hosts

Where two hosts answer alike as long as their states correspond, a computation that is put together
from what they answer gives the same on both, and leaves their states in correspondence.
-/

namespace Sokoban

variable {σ τ α β : Type} {R : σ → τ → Prop}

/-- Begun in states that correspond, two computations answer the same and end in states that
correspond. -/
def Alike (R : σ → τ → Prop) (x : StateM σ α) (y : StateM τ α) : Prop :=
  ∀ s t, R s t → (y.run t).1 = (x.run s).1 ∧ R (x.run s).2 (y.run t).2

namespace Alike

theorem pure (a : α) : Alike R (pure a : StateM σ α) (pure a) := fun _ _ h => ⟨rfl, h⟩

theorem bind {x : StateM σ α} {y : StateM τ α} {f : α → StateM σ β} {g : α → StateM τ β}
    (hx : Alike R x y) (hf : ∀ a, Alike R (f a) (g a)) : Alike R (x >>= f) (y >>= g) := by
  intro s t h
  obtain ⟨hanswer, hstates⟩ := hx s t h
  change ((g (y.run t).1).run (y.run t).2).1 = ((f (x.run s).1).run (x.run s).2).1 ∧
    R ((f (x.run s).1).run (x.run s).2).2 ((g (y.run t).1).run (y.run t).2).2
  rw [hanswer]
  exact hf _ _ _ hstates

theorem mapM {f : α → StateM σ β} {g : α → StateM τ β} (h : ∀ a, Alike R (f a) (g a))
    (l : List α) : Alike R (l.mapM f) (l.mapM g) := by
  induction l with
  | nil => exact Alike.pure []
  | cons a rest ih =>
      rw [List.mapM_cons, List.mapM_cons]
      exact (h a).bind fun _ => ih.bind fun _ => Alike.pure _

theorem foldlM {f : β → α → StateM σ β} {g : β → α → StateM τ β}
    (h : ∀ b a, Alike R (f b a) (g b a)) (l : List α) (b : β) :
    Alike R (l.foldlM f b) (l.foldlM g b) := by
  induction l generalizing b with
  | nil => exact Alike.pure b
  | cons a rest ih =>
      rw [List.foldlM_cons, List.foldlM_cons]
      exact (h b a).bind ih

/-! ## Computations that may fail -/

variable {x : ExceptT Fault (StateM σ) α} {y : ExceptT Fault (StateM τ) α}
  {f : α → ExceptT Fault (StateM σ) β} {g : α → ExceptT Fault (StateM τ) β}

theorem ofResult (r : Result α) :
    Alike R (Sokoban.ofResult r : ExceptT Fault (StateM σ) α).run (Sokoban.ofResult r).run :=
  Alike.pure r

theorem bind_run (hx : Alike R x.run y.run) (hf : ∀ a, Alike R (f a).run (g a).run) :
    Alike R (x >>= f).run (y >>= g).run := by
  rw [ExceptT.run_bind, ExceptT.run_bind]
  refine Alike.bind hx fun r => ?_
  cases r with
  | ok a => exact hf a
  | error e => exact Alike.pure _

theorem bind_lift {z : StateM σ α} {w : StateM τ α} (hz : Alike R z w)
    (hf : ∀ a, Alike R (f a).run (g a).run) :
    Alike R (ExceptT.lift z >>= f).run (ExceptT.lift w >>= g).run := by
  rw [ExceptT.run_bind_lift, ExceptT.run_bind_lift]
  exact hz.bind hf

theorem mapM_run (h : ∀ a, Alike R (f a).run (g a).run) (l : List α) :
    Alike R (l.mapM f).run (l.mapM g).run := by
  induction l with
  | nil => exact Alike.pure _
  | cons a rest ih =>
      rw [List.mapM_cons, List.mapM_cons]
      exact (h a).bind_run fun _ => ih.bind_run fun _ => Alike.pure _

theorem during (a : Activity) (hx : Alike R x.run y.run) :
    Alike R (whileDoing a x).run (whileDoing a y).run := by
  intro s t h
  obtain ⟨hanswer, hstates⟩ := hx s t h
  exact ⟨congrArg (Except.mapError (Fault.during a)) hanswer, hstates⟩

theorem ask {z : StateM σ (Except String α)} {w : StateM τ (Except String α)}
    (h : Alike R z w) : Alike R (Sokoban.ask z).run (Sokoban.ask w).run := by
  refine Alike.bind h fun answer => ?_
  cases answer with
  | ok a => exact Alike.pure _
  | error message => exact Alike.pure _

end Alike

/-! ## Hosts with a journal and a clock -/

variable [Journal (StateM σ)] [Journal (StateM τ)]

def JournalsAlike (R : σ → τ → Prop) : Prop :=
  ∀ e, Alike R (Journal.record e : StateM σ Unit) (Journal.record e : StateM τ Unit)

def ClocksAlike (R : σ → τ → Prop) [Clock (StateM σ)] [Clock (StateM τ)] : Prop :=
  Alike R (Clock.now : StateM σ Duration) (Clock.now : StateM τ Duration)

namespace JournalsAlike

theorem note (h : JournalsAlike R) (level : Level) (message : String) :
    Alike R (note level message : ExceptT Fault (StateM σ) Unit).run (note level message).run :=
  (h ⟨level, message⟩).bind fun _ => Alike.pure _

theorem recordAll (h : JournalsAlike R) (entries : List Entry) :
    Alike R (Session.recordAll entries : ExceptT Fault (StateM σ) Unit).run
      (Session.recordAll entries).run := by
  induction entries with
  | nil => exact Alike.pure _
  | cons e rest ih => exact (h.note e.level e.message).bind_run fun _ => ih

end JournalsAlike

end Sokoban
