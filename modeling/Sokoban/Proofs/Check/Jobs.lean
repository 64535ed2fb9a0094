import Mathlib.Tactic.Choose
import Sokoban.Check.Decomposition
import Sokoban.Proofs.Model.Totality

/-!
# The jobs of a board

Before a checker is asked anything, the boxes of a board are paired with its goals and every pair is
compiled. None of the systems is refused, so all that this does is to make entries in the journal,
and it answers with the same jobs on every host.
-/

namespace Sokoban

theorem Board.mem_of_mem_pairs {b : Board} {pair : Pair} (h : pair ∈ b.pairs) :
    pair.boxed ∈ b.boxes ∧ pair.goal ∈ b.goals := by
  obtain ⟨i, hi⟩ := List.getElem?_of_mem h
  obtain ⟨p, q, hp, hq, rfl⟩ := List.getElem?_zipWith_eq_some.1 hi
  exact ⟨List.mem_of_getElem? hp, List.mem_of_getElem? hq⟩

/-! ## Entries in the journal -/

section Recording

variable {m : Type → Type} [Monad m] [Journal m] {α β : Type}

def recorded (entries : List Entry) (a : α) : ExceptT Fault m α := do
  Session.recordAll entries
  return a

variable [LawfulMonad m]

theorem recorded_nil (a : α) : (recorded [] a : ExceptT Fault m α) = pure a := pure_bind () _

theorem recorded_cons (e : Entry) (entries : List Entry) (a : α) :
    (recorded (e :: entries) a : ExceptT Fault m α) =
      (note e.level e.message >>= fun _ => recorded entries a) :=
  bind_assoc _ _ _

theorem recorded_bind (entries : List Entry) (a : α) (f : α → ExceptT Fault m β) :
    (recorded entries a >>= f) = (Session.recordAll entries >>= fun _ => f a) := by
  rw [recorded, bind_assoc]
  simp only [pure_bind]

theorem recordAll_bind_recorded (entries more : List Entry) (a : α) :
    (Session.recordAll entries >>= fun _ => recorded more a) =
      (recorded (entries ++ more) a : ExceptT Fault m α) := by
  induction entries with
  | nil => exact pure_bind _ _
  | cons e rest ih =>
      rw [List.cons_append, recorded_cons, ← ih]
      exact bind_assoc _ _ _

theorem recorded_map (entries : List Entry) (a : α) (f : α → β) :
    (recorded entries a >>= fun x => pure (f x)) =
      (recorded entries (f a) : ExceptT Fault m β) :=
  recorded_bind _ _ _

theorem answer_recorded {σ : Type} [Journal (StateM σ)] (entries : List Entry) (a : α) (st : σ) :
    ((recorded entries a : ExceptT Fault (StateM σ) α).run.run st).1 = .ok a := by
  induction entries generalizing st with
  | nil => rfl
  | cons e rest ih => exact ih _

/-- Nothing goes wrong with an entry, so no activity is named. -/
theorem whileDoing_recorded (activity : Activity) (entries : List Entry) (a : α) :
    whileDoing activity (recorded entries a) = (recorded entries a : ExceptT Fault m α) := by
  induction entries with
  | nil =>
      rw [recorded_nil]
      exact ExceptT.ext (map_pure _ _)
  | cons e rest ih =>
      rw [recorded_cons]
      refine ExceptT.ext ?_
      change Except.mapError _ <$> (note e.level e.message >>= fun _ => recorded rest a).run = _
      rw [note, ExceptT.run_bind_lift, map_bind]
      exact congrArg _ (funext fun _ => congrArg ExceptT.run ih)

theorem mapM_eq_recorded {f : α → ExceptT Fault m β} {entry : α → Entry} {g : α → β}
    {xs : List α} (h : ∀ x ∈ xs, f x = recorded [entry x] (g x)) :
    xs.mapM f = recorded (xs.map entry) (xs.map g) := by
  induction xs with
  | nil => exact (recorded_nil []).symm
  | cons x rest ih =>
      obtain ⟨hx, hrest⟩ := List.forall_mem_cons.1 h
      rw [List.mapM_cons, hx, recorded_bind, ih hrest, recorded_map, recordAll_bind_recorded]
      rfl

theorem compilePair_eq_recorded {b : Board} {pair : Pair} {limit : Nat} {s : System}
    (h : System.compilePair b pair limit = .ok s) :
    (Session.compilePair b pair limit : ExceptT Fault m System) = recorded [s.notice] s := by
  rw [Session.compilePair, h]
  exact pure_bind _ _

end Recording

/-! ## Pairs with their systems -/

structure Board.IsJobs (b : Board) (limit : Nat) (jobs : List Job) : Prop where
  length : jobs.length = b.pairs.length
  job : ∀ (i : Nat) job, jobs[i]? = some job → job.index = i ∧ b.pairs[i]? = some job.pair ∧
    System.compilePair b job.pair limit = .ok job.system

namespace Board

variable {b : Board} {limit : Nat} {jobs : List Job}

theorem IsJobs.unique {others : List Job}
    (h : b.IsJobs limit jobs) (h' : b.IsJobs limit others) : jobs = others := by
  refine List.ext_getElem (h.length.trans h'.length.symm) fun i hi hi' => ?_
  obtain ⟨hindex, hpair, hsystem⟩ := h.job i _ (List.getElem?_eq_getElem hi)
  obtain ⟨hindex', hpair', hsystem'⟩ := h'.job i _ (List.getElem?_eq_getElem hi')
  have hsame : jobs[i].pair = others[i].pair := Option.some.inj (hpair.symm.trans hpair')
  rw [hsame] at hsystem
  have hsystems : jobs[i].system = others[i].system := Except.ok.inj (hsystem.symm.trans hsystem')
  cases hjob : jobs[i]
  cases hother : others[i]
  simp_all

theorem IsJobs.pairs_eq (h : b.IsJobs limit jobs) : b.pairs = jobs.map (·.pair) := by
  refine List.ext_getElem (by simp [h.length]) fun i hi hi' => ?_
  rw [List.length_map] at hi'
  have hpair := (h.job i _ (List.getElem?_eq_getElem hi')).2.1
  rw [List.getElem?_eq_getElem hi] at hpair
  rw [List.getElem_map, Option.some.inj hpair]

theorem IsJobs.compilePair_eq (h : b.IsJobs limit jobs) {job : Job} (hjob : job ∈ jobs) :
    System.compilePair b job.pair limit = .ok job.system := by
  obtain ⟨i, hi⟩ := List.getElem?_of_mem hjob
  exact (h.job i job hi).2.2

theorem IsJobs.numbered (h : b.IsJobs limit jobs) :
    (jobs.map fun job => (job.pair, job.system)).zipIdx.map
      (fun ((pair, system), index) => (⟨index, pair, system⟩ : Job)) = jobs := by
  refine List.ext_getElem (by simp) fun i _ hi => ?_
  have hindex := (h.job i _ (List.getElem?_eq_getElem hi)).1
  simp only [List.getElem_map, List.getElem_zipIdx, Nat.zero_add]
  exact congrArg (Job.mk · _ _) hindex.symm

/-- The pairs of a board that fits become jobs: none of their systems is refused. -/
theorem exists_isJobs (hb : b.Fits) (limit : Nat) : ∃ jobs, b.IsJobs limit jobs := by
  have hcompiles : ∀ p ∈ b.pairs, ∃ s, System.compilePair b p limit = .ok s := by
    intro p hp
    obtain ⟨hboxed, hgoal⟩ := mem_of_mem_pairs hp
    exact System.exists_compilePair hb hboxed (isFree_of_mem_goals hgoal) limit
  have : Nonempty System := ⟨(System.exists_compile hb limit).choose⟩
  choose! systemOf hsystem using hcompiles
  refine ⟨b.pairs.zipIdx.map fun e => ⟨e.2, e.1, systemOf e.1⟩, by simp, fun i job hjob => ?_⟩
  simp only [List.getElem?_map, List.getElem?_zipIdx, Option.map_eq_some_iff, Nat.zero_add] at hjob
  obtain ⟨_, ⟨p, hp, rfl⟩, rfl⟩ := hjob
  exact ⟨rfl, hp, hsystem p (List.mem_of_getElem? hp)⟩

end Board

namespace Decomposer

variable {m : Type → Type} [Monad m] [LawfulMonad m] [Journal m] {d : Decomposer m}
  {jobs : List Job}

theorem models_eq (h : d.board.IsJobs d.limit jobs) :
    d.models = recorded (d.board.pairNotices ++ jobs.map (·.system.notice))
      (jobs.map fun job => (job.pair, job.system)) := by
  have hmodel : ∀ job ∈ jobs,
      (do let system ← whileDoing (.compilingPair job.pair)
            (Session.compilePair d.board job.pair d.limit)
          return (job.pair, system) : ExceptT Fault m (Pair × System)) =
        recorded [job.system.notice] (job.pair, job.system) := by
    intro job hjob
    rw [compilePair_eq_recorded (h.compilePair_eq hjob), whileDoing_recorded, recorded_map]
  calc d.models
      = (recorded d.board.pairNotices d.board.pairs >>= fun pairs => pairs.mapM fun pair => do
          let system ← whileDoing (.compilingPair pair) (Session.compilePair d.board pair d.limit)
          return (pair, system)) := rfl
    _ = _ := by
      rw [recorded_bind, h.pairs_eq, List.mapM_map, ← recordAll_bind_recorded]
      exact congrArg _ (funext fun _ => mapM_eq_recorded hmodel)

/-- Whatever the host, finding the jobs does nothing but make entries in the journal. -/
theorem jobs_eq (h : d.board.IsJobs d.limit jobs) :
    d.jobs = recorded (d.board.pairNotices ++ jobs.map (·.system.notice)) jobs := by
  unfold Decomposer.jobs
  rw [models_eq h, recorded_map, h.numbered]

end Decomposer

end Sokoban
