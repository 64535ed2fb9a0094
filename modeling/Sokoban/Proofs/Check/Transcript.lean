import Sokoban.Proofs.Check.Threads

/-!
# Transcripts of checking

A checker may answer as it likes, also by what it was asked before. On a host that also keeps a
transcript of all that is asked and answered, a board is checked just as without one, and the
transcript of checking in turn goes through the jobs in their order, up to the first failure.
-/

namespace Sokoban

structure Exchange where
  question : Question
  answer : Result Report

structure Transcribed (σ : Type) where
  host : σ
  exchanges : List Exchange

section Mirroring

variable {σ α β : Type}

namespace Transcribed

def lift (x : StateM σ α) : StateM (Transcribed σ) α := fun t =>
  ((x.run t.host).1, ⟨(x.run t.host).2, t.exchanges⟩)

instance [Journal (StateM σ)] : Journal (StateM (Transcribed σ)) :=
  ⟨fun e => lift (Journal.record e)⟩

instance [Clock (StateM σ)] : Clock (StateM (Transcribed σ)) := ⟨lift Clock.now⟩

end Transcribed

def Checker.transcribed (c : Checker (StateM σ)) : Checker (StateM (Transcribed σ)) where
  engine := c.engine
  check s stem := ExceptT.mk fun t =>
    let ended := (c.check s stem).run.run t.host
    (ended.1, ⟨ended.2, t.exchanges ++ [⟨(s, stem), ended.1⟩]⟩)

def Decomposer.transcribed (d : Decomposer (StateM σ)) : Decomposer (StateM (Transcribed σ)) :=
  ⟨d.board, d.limit, d.checker.transcribed, d.stem⟩

def Checker.JudgesByOutcome (c : Checker (StateM σ)) : Prop :=
  ∀ s stem st report, ((c.check s stem).run.run st).1 = .ok report → report.JudgedByOutcome

/-- With a transcript, a computation answers what it answers without one and leaves the host behind
in the same state; what it adds to the transcript belongs to the answer. -/
def Mirrors (x : StateM σ α) (y : StateM (Transcribed σ) α) (Q : α → List Exchange → Prop) : Prop :=
  ∀ t, ∃ new, y.run t = ((x.run t.host).1, ⟨(x.run t.host).2, t.exchanges ++ new⟩) ∧
    Q (x.run t.host).1 new

namespace Mirrors

theorem pure {a : α} {Q : α → List Exchange → Prop} (h : Q a []) :
    Mirrors (pure a : StateM σ α) (pure a) Q := by
  intro t
  refine ⟨[], ?_, h⟩
  rw [List.append_nil]
  rfl

theorem lift (x : StateM σ α) : Mirrors x (Transcribed.lift x) fun _ new => new = [] := by
  intro t
  refine ⟨[], ?_, rfl⟩
  rw [List.append_nil]
  rfl

theorem bind {x : StateM σ α} {y : StateM (Transcribed σ) α} {f : α → StateM σ β}
    {g : α → StateM (Transcribed σ) β} {Q : α → List Exchange → Prop}
    {R : β → List Exchange → Prop} (hx : Mirrors x y Q)
    (hf : ∀ a new, Q a new → Mirrors (f a) (g a) fun b more => R b (new ++ more)) :
    Mirrors (x >>= f) (y >>= g) R := by
  intro t
  obtain ⟨new, hrun, hQ⟩ := hx t
  obtain ⟨more, hrun', hR⟩ := hf _ new hQ ⟨(x.run t.host).2, t.exchanges ++ new⟩
  refine ⟨new ++ more, ?_, hR⟩
  rw [StateT.run_bind, hrun, ← List.append_assoc]
  exact hrun'

/-! ## Computations that may fail -/

variable {x : ExceptT Fault (StateM σ) α} {y : ExceptT Fault (StateM (Transcribed σ)) α}
  {f : α → ExceptT Fault (StateM σ) β} {g : α → ExceptT Fault (StateM (Transcribed σ)) β}
  {Q : Result α → List Exchange → Prop} {R : Result β → List Exchange → Prop}

theorem bind_run (hx : Mirrors x.run y.run Q)
    (hok : ∀ a new, Q (.ok a) new → Mirrors (f a).run (g a).run fun r more => R r (new ++ more))
    (herror : ∀ e new, Q (.error e) new → R (.error e) new) :
    Mirrors (x >>= f).run (y >>= g).run R := by
  rw [ExceptT.run_bind, ExceptT.run_bind]
  refine hx.bind fun r new hQ => ?_
  cases r with
  | ok a => exact hok a new hQ
  | error e => exact .pure (by rw [List.append_nil]; exact herror e new hQ)

/-- A step that leaves nothing in the transcript and does not fail. -/
theorem bind_lift {z : StateM σ α} (hf : ∀ a, Mirrors (f a).run (g a).run R) :
    Mirrors (ExceptT.lift z >>= f).run (ExceptT.lift (Transcribed.lift z) >>= g).run R := by
  rw [ExceptT.run_bind_lift, ExceptT.run_bind_lift]
  refine (Mirrors.lift z).bind ?_
  rintro a _ rfl
  exact hf a

variable [Journal (StateM σ)]

theorem recorded_bind (entries : List Entry) (a : α)
    (hf : Mirrors (f a).run (g a).run R) :
    Mirrors (recorded entries a >>= f).run (recorded entries a >>= g).run R := by
  induction entries with
  | nil =>
      rw [recorded_nil, recorded_nil, pure_bind, pure_bind]
      exact hf
  | cons e rest ih =>
      rw [recorded_cons, recorded_cons, bind_assoc, bind_assoc]
      exact bind_lift fun _ => ih

end Mirrors

end Mirroring

namespace Decomposer

variable {σ : Type} {d : Decomposer (StateM σ)}

def exchange (d : Decomposer (StateM σ)) (job : Job) (answer : Result Report) : Exchange :=
  ⟨d.question job, answer⟩

/-- The transcript of checking jobs in turn, and what is answered: the reports if there is one for
every job, and otherwise the first failure, after which nothing more is asked. -/
inductive InTurn (d : Decomposer (StateM σ)) :
    List Job → List Exchange → Result (List PairReport) → Prop
  | all (reports : List (Job × Report)) :
      InTurn d (reports.map (·.1)) (reports.map fun r => d.exchange r.1 (.ok r.2))
        (.ok (reports.map fun r => ⟨r.1.index, r.1.pair, r.2⟩))
  | upTo (reports : List (Job × Report)) (job : Job) (fault : Fault) (after : List Job) :
      InTurn d (reports.map (·.1) ++ job :: after)
        (reports.map (fun r => d.exchange r.1 (.ok r.2)) ++ [d.exchange job (.error fault)])
        (.error (fault.during (.checkingPair job.index job.pair)))

theorem InTurn.cons {jobs : List Job} {exchanges : List Exchange}
    {answer : Result (List PairReport)} (h : d.InTurn jobs exchanges answer) (job : Job)
    (report : Report) :
    d.InTurn (job :: jobs) (d.exchange job (.ok report) :: exchanges)
      (answer.map (⟨job.index, job.pair, report⟩ :: ·)) := by
  cases h with
  | all reports => exact .all ((job, report) :: reports)
  | upTo reports last fault after => exact .upTo ((job, report) :: reports) last fault after

def Gives (d : Decomposer (StateM σ)) (e : Exchange) : Prop :=
  ∃ st, ((d.checker.check e.question.1 e.question.2).run.run st).1 = e.answer

theorem InTurn.judgedByOutcome {jobs : List Job} {exchanges : List Exchange}
    {pairs : List PairReport} (h : d.InTurn jobs exchanges (.ok pairs))
    (hgives : ∀ e ∈ exchanges, d.Gives e) (hc : d.checker.JudgesByOutcome) :
    ∀ r ∈ pairs, r.report.JudgedByOutcome := by
  cases h with
  | all reports =>
      intro r hr
      obtain ⟨e, he, rfl⟩ := List.mem_map.1 hr
      obtain ⟨st, hst⟩ := hgives _ (List.mem_map_of_mem he)
      exact hc _ _ st e.2 hst

theorem mirrors_consult (d : Decomposer (StateM σ)) (job : Job) :
    Mirrors (d.consult job).run (d.transcribed.consult job).run fun r new =>
      ∃ answer, r = Result.during (.checkingPair job.index job.pair) answer ∧
        new = [d.exchange job answer] ∧ d.Gives (d.exchange job answer) :=
  fun t => ⟨_, rfl, _, rfl, rfl, t.host, rfl⟩

theorem mirrors_since [Clock (StateM σ)] (begun : Duration) :
    Mirrors (since begun : ExceptT Fault (StateM σ) Duration).run (since begun).run fun r new =>
      (∃ elapsed, r = .ok elapsed) ∧ new = [] :=
  Mirrors.bind_lift fun _ => .pure ⟨⟨_, rfl⟩, rfl⟩

variable [Journal (StateM σ)]

theorem mirrors_checkJob (d : Decomposer (StateM σ)) (job : Job) :
    Mirrors (d.checkJob job).run (d.transcribed.checkJob job).run fun r new =>
      ∃ answer, new = [d.exchange job answer] ∧ d.Gives (d.exchange job answer) ∧
        r = (Result.during (.checkingPair job.index job.pair) answer).map
          fun report => ⟨job.index, job.pair, report⟩ := by
  refine (d.mirrors_consult job).bind_run ?_ ?_
  · rintro report new ⟨answer, hanswer, rfl, hgives⟩
    refine Mirrors.bind_lift fun _ => .pure ⟨answer, rfl, hgives, ?_⟩
    rw [← hanswer]
    rfl
  · rintro e new ⟨answer, hanswer, rfl, hgives⟩
    refine ⟨answer, rfl, hgives, ?_⟩
    rw [← hanswer]
    rfl

theorem mirrors_mapM_checkJob (d : Decomposer (StateM σ)) (jobs : List Job) :
    Mirrors (jobs.mapM d.checkJob).run (jobs.mapM d.transcribed.checkJob).run fun r new =>
      d.InTurn jobs new r ∧ ∀ e ∈ new, d.Gives e := by
  induction jobs with
  | nil => exact .pure ⟨.all [], List.forall_mem_nil _⟩
  | cons job rest ih =>
      rw [List.mapM_cons, List.mapM_cons]
      refine (d.mirrors_checkJob job).bind_run ?_ ?_
      · rintro result _ ⟨answer, rfl, hgives, hresult⟩
        cases answer with
        | error e => cases hresult
        | ok report =>
            obtain rfl := Except.ok.inj hresult
            refine ih.bind_run ?_ ?_
            · rintro results new ⟨hturn, hnew⟩
              refine .pure ⟨?_, ?_⟩
              · rw [List.append_nil]
                exact hturn.cons job report
              · rw [List.append_nil]
                exact List.forall_mem_cons.2 ⟨hgives, hnew⟩
            · rintro e new ⟨hturn, hnew⟩
              exact ⟨hturn.cons job report, List.forall_mem_cons.2 ⟨hgives, hnew⟩⟩
      · rintro e _ ⟨answer, rfl, hgives, hresult⟩
        cases answer with
        | ok report => cases hresult
        | error fault =>
            obtain rfl := Except.error.inj hresult
            exact ⟨.upTo [] job fault rest, List.forall_mem_singleton.2 hgives⟩

theorem mirrors_run [Clock (StateM σ)] {jobs : List Job} (hjobs : d.board.IsJobs d.limit jobs) :
    Mirrors d.run.run d.transcribed.run.run fun r new =>
      d.InTurn jobs new (r.map (·.pairs)) ∧ ∀ e ∈ new, d.Gives e := by
  have hfound : d.transcribed.board.IsJobs d.transcribed.limit jobs := hjobs
  unfold Decomposer.run
  rw [jobs_eq hjobs, jobs_eq hfound]
  refine Mirrors.bind_lift fun begun => Mirrors.recorded_bind _ _ ?_
  refine (d.mirrors_mapM_checkJob jobs).bind_run (fun reports new h => ?_) fun _ _ h => h
  refine (mirrors_since begun).bind_run ?_ ?_
  · rintro elapsed _ ⟨-, rfl⟩
    refine .pure ?_
    rw [List.append_nil, List.append_nil]
    exact h
  · rintro e _ ⟨⟨_, helapsed⟩, -⟩
    cases helapsed

end Decomposer

end Sokoban
