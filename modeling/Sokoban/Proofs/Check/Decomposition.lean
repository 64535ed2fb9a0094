import Sokoban.Host.Memory
import Sokoban.Proofs.Board.Drawn
import Sokoban.Proofs.Check.Threads

/-!
# Checking the pairs in turn or in threads

Whatever turns the threads take, checking the pairs in threads answers what checking them in turn
answers, but for a crash of the checker, which then is an error. In threads the checker is asked
about every pair, and in turn about no pair after the first failure.
-/

namespace Sokoban

namespace Decomposer

variable {σ : Type} [Journal (StateM σ)] [Clock (StateM σ)] {d : Decomposer (StateM σ)}
  {answer : System → String → Result Report} {P : List Question → σ → Prop} {jobs : List Job}

/-! ## One after the other -/

namespace Tracks

theorem checkAll (h : d.Tracks answer P) {report : Job → Report} (l : List Question)
    (hjobs : ∀ job ∈ jobs, d.answerTo answer job = .ok (report job)) :
    Ensures (P l) (jobs.mapM d.checkJob).run fun r st =>
      r = .ok (jobs.map fun job => ⟨job.index, job.pair, report job⟩) ∧
        P (l ++ jobs.map d.question) st := by
  induction jobs generalizing l with
  | nil => exact fun st hst => ⟨rfl, by rw [List.map_nil, List.append_nil]; exact hst⟩
  | cons job rest ih =>
      obtain ⟨hjob, hrest⟩ := List.forall_mem_cons.1 hjobs
      have hcheck := h.checkJob l job
      unfold outcome at hcheck
      rw [hjob] at hcheck
      have hmore := ih (l ++ [d.question job]) hrest
      rw [List.append_assoc] at hmore
      rw [List.mapM_cons]
      exact hcheck.bind_ok (hmore.bind_ok fun _ hst => ⟨rfl, hst⟩)

/-- The first failure is the answer, and after it the checker is asked nothing more. -/
theorem checkUntil (h : d.Tracks answer P) {before after : List Job} {job : Job} {e : Fault}
    (l : List Question) (hbefore : ∀ j ∈ before, ∃ report, d.answerTo answer j = .ok report)
    (hjob : d.answerTo answer job = .error e) :
    Ensures (P l) ((before ++ job :: after).mapM d.checkJob).run fun r st =>
      r = .error e ∧ P (l ++ (before ++ [job]).map d.question) st := by
  induction before generalizing l with
  | nil =>
      have hcheck := h.checkJob l job
      unfold outcome at hcheck
      rw [hjob] at hcheck
      rw [List.nil_append, List.mapM_cons]
      exact hcheck.bind_error
  | cons j rest ih =>
      obtain ⟨⟨report, hj⟩, hrest⟩ := List.forall_mem_cons.1 hbefore
      have hcheck := h.checkJob l j
      unfold outcome at hcheck
      rw [hj] at hcheck
      have hmore := ih (l ++ [d.question j]) hrest
      rw [List.append_assoc] at hmore
      rw [List.cons_append, List.mapM_cons]
      exact hcheck.bind_ok hmore.bind_error

theorem run (h : d.Tracks answer P) {l : List Question} {v : Result (List PairReport)}
    (hjobs : Ensures (P []) d.jobs.run fun r st => r = .ok jobs ∧ P [] st)
    (hchecks : Ensures (P []) (jobs.mapM d.checkJob).run fun r st => r = v ∧ P l st) :
    Ensures (P []) d.run.run fun r st => r.map (·.pairs) = v ∧ P l st := by
  refine (h.now []).bind_lift fun begun => hjobs.bind_ok (hchecks.bind_run ?_ ?_)
  · intro pairs st hst
    obtain ⟨rfl, hst⟩ := hst
    exact ⟨rfl, h.now l st hst⟩
  · rintro e st ⟨rfl, hst⟩
    exact ⟨rfl, hst⟩

/-! ## In threads -/

theorem joined (h : d.Tracks answer P) (threads : List Thread) :
    Ensures (d.Progress answer P jobs threads) (threads.mapM d.join) fun rs st =>
      rs = jobs.map (d.outcome answer) ∧
        ∃ l : List Question, l.Perm (jobs.map d.question) ∧ P l st := by
  rintro st ⟨rfl, hfaithful, l, hperm, hst⟩
  obtain ⟨hrs, new, hnew, hst'⟩ := h.joinAll l hfaithful st hst
  rw [List.map_map, List.map_map]
  exact ⟨hrs, l ++ new, (hperm.append_right new).trans hnew, hst'⟩

theorem runParallel (h : d.Tracks answer P) (schedule : Schedule)
    (hjobs : Ensures (P []) d.jobs.run fun r st => r = .ok jobs ∧ P [] st) :
    Ensures (P []) (d.runParallel schedule).run fun r st =>
      r.map (·.pairs) = (jobs.map (d.outcome answer)).mapM settled ∧
        ∃ l : List Question, l.Perm (jobs.map d.question) ∧ P l st := by
  have hstarted : ∀ st, P [] st →
      d.Progress answer P jobs (jobs.map fun job => ⟨job, .waiting⟩) st := by
    intro st hst
    refine ⟨by simp [Function.comp_def], List.forall_mem_map.2 fun _ _ => trivial, [], ?_, hst⟩
    simp [asked, List.flatMap_map]
  have hturns : Ensures (P [])
      (schedule.turns.foldlM d.turnOf (jobs.map fun job => ⟨job, .waiting⟩))
      (d.Progress answer P jobs) :=
    fun st hst => h.turns schedule.turns _ st (hstarted st hst)
  refine (h.now []).bind_lift fun begun => hjobs.bind_ok (hturns.bind_lift fun threads => ?_)
  refine (h.joined threads).bind_lift fun answers => (Ensures.ofResult _).bind_run ?_ ?_
  · rintro pairs st ⟨hpairs, rfl, l, hperm, hst⟩
    exact ⟨hpairs, l, hperm, h.now l st hst⟩
  · rintro e st ⟨hfailure, rfl, l, hperm, hst⟩
    exact ⟨hfailure, l, hperm, hst⟩

end Tracks

end Decomposer

/-! ## What the checker is asked -/

/-- A host, together with the questions that were put to a checker on it. -/
structure Watched (σ : Type) where
  host : σ
  asked : List Question

namespace Watched

variable {σ α : Type}

def lift (x : StateM σ α) : StateM (Watched σ) α := fun w =>
  ((x.run w.host).1, ⟨(x.run w.host).2, w.asked⟩)

instance [Journal (StateM σ)] : Journal (StateM (Watched σ)) := ⟨fun e => lift (Journal.record e)⟩

instance [Clock (StateM σ)] : Clock (StateM (Watched σ)) := ⟨lift Clock.now⟩

end Watched

def Checker.watched {σ : Type} (c : Checker (StateM σ)) : Checker (StateM (Watched σ)) where
  engine := c.engine
  check s stem := ExceptT.mk fun w =>
    (((c.check s stem).run.run w.host).1,
      ⟨((c.check s stem).run.run w.host).2, w.asked ++ [(s, stem)]⟩)

/-- The answer of a checker, be it a report, an error or a crash, depends on the question alone. -/
def Checker.AnswersBy {σ : Type} (c : Checker (StateM σ))
    (answer : System → String → Result Report) : Prop :=
  ∀ s stem st, ((c.check s stem).run.run st).1 = answer s stem

namespace Decomposer

def watched {σ : Type} (d : Decomposer (StateM σ)) : Decomposer (StateM (Watched σ)) :=
  ⟨d.board, d.limit, d.checker.watched, d.stem⟩

variable {σ : Type} [Journal (StateM σ)] [Clock (StateM σ)] {d : Decomposer (StateM σ)}
  {answer : System → String → Result Report} {jobs : List Job}

theorem tracks_of_answersBy (h : d.checker.AnswersBy answer) : d.Tracks answer fun _ _ => True where
  check := fun _ s stem st _ => ⟨h s stem st, trivial⟩
  record := fun _ _ _ _ => trivial
  now := fun _ _ _ => trivial

theorem tracks_watched (h : d.checker.AnswersBy answer) :
    d.watched.Tracks answer fun l w => w.asked = l where
  check := by
    rintro l s stem w rfl
    exact ⟨h s stem w.host, rfl⟩
  record := fun _ _ _ hw => hw
  now := fun _ _ hw => hw

/-- What checking in turn and checking in threads answer, and which questions they put to the
checker; the latter in some order. -/
structure Ends (d : Decomposer (StateM σ)) (schedule : Schedule) (st : σ)
    (inTurn inThreads : Result (List PairReport)) (asked all : List Question) : Prop where
  run : (d.run.run.run st).1.map (·.pairs) = inTurn
  runParallel : ((d.runParallel schedule).run.run st).1.map (·.pairs) = inThreads
  run_asked : (d.watched.run.run.run ⟨st, []⟩).2.asked = asked
  runParallel_asked : ((d.watched.runParallel schedule).run.run ⟨st, []⟩).2.asked.Perm all

theorem ends (hc : d.checker.AnswersBy answer) (hb : d.board.Fits)
    (hjobs : d.board.IsJobs d.limit jobs) {inTurn : Result (List PairReport)}
    {asked : List Question}
    (hrun : Ensures (fun _ => True) (jobs.mapM d.checkJob).run fun r _ => r = inTurn ∧ True)
    (hasked : Ensures (fun w => w.asked = []) (jobs.mapM d.watched.checkJob).run fun r w =>
      r = inTurn ∧ w.asked = asked) (schedule : Schedule) (st : σ) :
    d.Ends schedule st inTurn ((jobs.map (d.outcome answer)).mapM settled) asked
      (jobs.map d.question) := by
  have htracks := tracks_of_answersBy hc
  have hwatched := tracks_watched hc
  obtain ⟨_, hsame, hhost⟩ := d.exists_jobs hb
  obtain rfl := hjobs.unique hsame
  obtain ⟨_, hsame', hlist⟩ := d.watched.exists_jobs hb
  obtain rfl := hjobs.unique hsame'
  obtain ⟨-, l, hperm, rfl⟩ :=
    hwatched.runParallel schedule (hlist hwatched []) ⟨st, []⟩ rfl
  exact ⟨(htracks.run (l := asked) (hhost htracks []) hrun st trivial).1,
    (htracks.runParallel schedule (hhost htracks []) st trivial).1,
    (hwatched.run (hlist hwatched []) hasked ⟨st, []⟩ rfl).2, hperm⟩

theorem ends_of_reports (hc : d.checker.AnswersBy answer) (hb : d.board.Fits)
    (hjobs : d.board.IsJobs d.limit jobs) {report : Job → Report}
    (hreport : ∀ job ∈ jobs, answer job.system (d.stemOf job.index) = .ok (report job))
    (schedule : Schedule) (st : σ) :
    d.Ends schedule st (.ok (jobs.map fun job => ⟨job.index, job.pair, report job⟩))
      (.ok (jobs.map fun job => ⟨job.index, job.pair, report job⟩)) (jobs.map d.question)
      (jobs.map d.question) := by
  have hanswers : ∀ job ∈ jobs, d.answerTo answer job = .ok (report job) :=
    fun job hjob => d.answerTo_of_ok (hreport job hjob)
  have hsettled : (jobs.map (d.outcome answer)).mapM settled =
      .ok (jobs.map fun job => ⟨job.index, job.pair, report job⟩) := by
    rw [List.mapM_map]
    refine Result.mapM_eq_map fun job hjob => ?_
    rw [Function.comp_apply, outcome, hanswers job hjob]
    rfl
  have hends := ends hc hb hjobs ((tracks_of_answersBy hc).checkAll [] hanswers)
    ((tracks_watched hc).checkAll (d := d.watched) [] hanswers) schedule st
  rwa [hsettled] at hends

/-- The first pair without a report decides, even if later ones have none either. -/
theorem ends_of_failure {before after : List Job} {job : Job} {fault ended : Fault}
    (hc : d.checker.AnswersBy answer) (hb : d.board.Fits)
    (hjobs : d.board.IsJobs d.limit (before ++ job :: after))
    (hbefore : ∀ j ∈ before, ∃ report, answer j.system (d.stemOf j.index) = .ok report)
    (hjob : d.answerTo answer job = .error fault) (hended : settled (.error fault) = .error ended)
    (schedule : Schedule) (st : σ) :
    d.Ends schedule st (.error fault) (.error ended) ((before ++ [job]).map d.question)
      ((before ++ job :: after).map d.question) := by
  have hanswers : ∀ j ∈ before, ∃ report, d.answerTo answer j = .ok report := by
    intro j hj
    obtain ⟨report, hreport⟩ := hbefore j hj
    exact ⟨report, d.answerTo_of_ok hreport⟩
  have hsettled : ((before ++ job :: after).map (d.outcome answer)).mapM settled =
      .error ended := by
    rw [List.mapM_map]
    refine Result.mapM_eq_error (fun j hj => ?_) ?_
    · obtain ⟨report, hreport⟩ := hanswers j hj
      exact ⟨⟨j.index, j.pair, report⟩, by rw [Function.comp_apply, outcome, hreport]; rfl⟩
    · rw [Function.comp_apply, outcome, hjob]
      exact hended
  rw [← hsettled]
  exact ends hc hb hjobs ((tracks_of_answersBy hc).checkUntil [] hanswers hjob)
    ((tracks_watched hc).checkUntil (d := d.watched) [] hanswers hjob) schedule st

/-- Checking in turn and checking in threads agree, whatever turns the threads take. If every pair
gets a report, both answer with the reports. Otherwise the first pair without one decides: an error
is the answer of both, and a crash of the one is an error of the other. -/
theorem run_agrees_runParallel (hb : d.board.Drawn) (hc : d.checker.AnswersBy answer) :
    ∃ jobs, d.board.IsJobs d.limit jobs ∧ (jobs.map d.question).Nodup ∧
      ∀ (schedule : Schedule) (st : σ),
        (∀ report : Job → Report,
          (∀ job ∈ jobs, answer job.system (d.stemOf job.index) = .ok (report job)) →
          d.Ends schedule st (.ok (jobs.map fun job => ⟨job.index, job.pair, report job⟩))
            (.ok (jobs.map fun job => ⟨job.index, job.pair, report job⟩)) (jobs.map d.question)
            (jobs.map d.question)) ∧
        ∀ before job after, jobs = before ++ job :: after →
          (∀ j ∈ before, ∃ report, answer j.system (d.stemOf j.index) = .ok report) →
          (∀ e, answer job.system (d.stemOf job.index) = .error (.error e) →
            d.Ends schedule st
              (.error (.error (e.under (.during (.checkingPair job.index job.pair)))))
              (.error (.error (e.under (.during (.checkingPair job.index job.pair)))))
              ((before ++ [job]).map d.question) (jobs.map d.question)) ∧
          ∀ c, answer job.system (d.stemOf job.index) = .error (.crash c) →
            d.Ends schedule st (Result.crash c) (Result.fail (.model .checkerCrashed))
              ((before ++ [job]).map d.question) (jobs.map d.question) := by
  obtain ⟨jobs, hjobs, -⟩ := d.exists_jobs hb.fits
  refine ⟨jobs, hjobs, d.nodup_questions hjobs, fun schedule st => ⟨fun report hreport => ?_, ?_⟩⟩
  · exact ends_of_reports hc hb.fits hjobs hreport schedule st
  · rintro before job after rfl hbefore
    exact ⟨fun e he => ends_of_failure hc hb.fits hjobs hbefore (d.answerTo_of_error he) rfl
        schedule st,
      fun c hcrash => ends_of_failure hc hb.fits hjobs hbefore (d.answerTo_of_error hcrash) rfl
        schedule st⟩

/-- The thread of the last pair crashes before the others begin, and still both ways of checking
answer with the error of the second pair. -/
theorem run_agrees_runParallel_of_corridor :
    ∃ (d : Decomposer (StateM Memory)) (answer : System → String → Result Report) (i j k : Job)
      (c : Crash) (e : Error), d.board.Drawn ∧ d.checker.AnswersBy answer ∧
      d.board.IsJobs d.limit [i, j, k] ∧ answer k.system (d.stemOf k.index) = Result.crash c ∧
      d.Ends ⟨[2, 2, 1, 0]⟩ {} (.error (.error e)) (.error (.error e))
        [d.question i, d.question j] [d.question i, d.question j, d.question k] := by
  let board : Board := ⟨[[.keeper, .box, .box, .box, .goal, .goal, .goal]], 7, by decide⟩
  have hb : board.Drawn := ⟨"@$$$...", by decide, rfl⟩
  let report : Report := .ofRun .bdd .holds ⟨0⟩ "" ""
  let answer : System → String → Result Report := fun _ stem =>
    if stem = "s_pair0" then .ok report
    else if stem = "s_pair1" then Result.fail (.other "no answer")
    else Result.crash (.other "no more")
  let d : Decomposer (StateM Memory) :=
    ⟨board, 3, ⟨.bdd, fun s stem => ofResult (answer s stem)⟩, "s"⟩
  have hc : d.checker.AnswersBy answer := fun _ _ _ => rfl
  obtain ⟨jobs, hjobs, -, hends⟩ := run_agrees_runParallel (d := d) hb hc
  have hlength : jobs.length = 3 := hjobs.length.trans rfl
  obtain ⟨i, j, k, rfl⟩ := List.length_eq_three.1 hlength
  have hi : i.index = 0 := (hjobs.job 0 i rfl).1
  have hj : j.index = 1 := (hjobs.job 1 j rfl).1
  have hk : k.index = 2 := (hjobs.job 2 k rfl).1
  have hsecond := ((hends ⟨[2, 2, 1, 0]⟩ {}).2 [i] j [k] rfl fun _ hfirst => ⟨report, ?_⟩).1
    (.of (.other "no answer")) ?_
  · exact ⟨d, answer, i, j, k, .other "no more", _, hb, hc, hjobs, by rw [hk]; rfl, hsecond⟩
  · obtain rfl := List.mem_singleton.1 hfirst
    rw [hi]
    rfl
  · rw [hj]
    rfl

end Decomposer

end Sokoban
