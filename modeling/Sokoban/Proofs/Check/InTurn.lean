import Sokoban.Host.Memory
import Sokoban.Proofs.Check.Transcript

/-!
# Checking the pairs in turn

The pairs of a board and their systems, what a checker is asked about them one after the other, and
what the reports come to. Nothing is taken for granted about the checker: it may answer by what it
was asked before.
-/

namespace Sokoban

/-! ## The verdict on all pairs -/

namespace Report.JudgedByOutcome

variable {r : Report}

theorem winnable_iff (h : r.JudgedByOutcome) : r.verdict = .winnable ↔ r.outcome = .refuted := by
  rw [h, Verdict.ofOutcome_congr _ .bdd]
  cases r.outcome <;> decide

theorem notWinnable_iff (h : r.JudgedByOutcome) :
    r.verdict = .notWinnable ↔ r.outcome = .holds := by
  rw [h, Verdict.ofOutcome_congr _ .bdd]
  cases r.outcome <;> decide

end Report.JudgedByOutcome

namespace Decomposition

variable {dec : Decomposition}

theorem mem_verdicts_iff {v : Verdict} :
    v ∈ dec.verdicts ↔ ∃ r ∈ dec.pairs, r.report.verdict = v :=
  List.mem_map

theorem verdict_eq_notWinnable_iff (h : ∀ r ∈ dec.pairs, r.report.JudgedByOutcome) :
    dec.verdict = .notWinnable ↔ ∃ r ∈ dec.pairs, r.report.outcome = .holds := by
  have hverdict : dec.verdict = .notWinnable ↔ .notWinnable ∈ dec.verdicts := by
    unfold verdict
    split
    · simp [*]
    · split <;> simp [*]
  rw [hverdict, mem_verdicts_iff]
  exact exists_congr fun r => and_congr_right fun hr => (h r hr).notWinnable_iff

theorem failures_eq_zero_iff (h : ∀ r ∈ dec.pairs, r.report.JudgedByOutcome) :
    dec.failures = 0 ↔ ∀ r ∈ dec.pairs, r.report.outcome = .refuted := by
  have hfailures : dec.failures = 0 ↔ ∀ r ∈ dec.pairs, r.report.verdict = .winnable := by
    simp [failures, verdicts, Verdict.isWinnable, List.filter_eq_nil_iff]
  rw [hfailures]
  exact forall₂_congr fun r hr => (h r hr).winnable_iff

theorem verdict_eq_winnable_iff : dec.verdict = .winnable ↔ dec.failures = 0 := by
  have hverdict : dec.verdict = .winnable ↔
      .notWinnable ∉ dec.verdicts ∧ .unknown ∉ dec.verdicts := by
    unfold verdict
    split
    · simp [*]
    · split <;> simp [*]
  have hall : dec.failures = 0 ↔ ∀ v ∈ dec.verdicts, v = .winnable := by
    simp [failures, Verdict.isWinnable, List.filter_eq_nil_iff]
  rw [hverdict, hall]
  constructor
  · rintro ⟨hholds, hunknown⟩ v hv
    cases v with
    | winnable => rfl
    | notWinnable => exact absurd hv hholds
    | unknown => exact absurd hv hunknown
  · intro h
    exact ⟨fun hv => absurd (h _ hv) (by decide), fun hv => absurd (h _ hv) (by decide)⟩

/-- The verdict is made up of the outcomes of the reports alone, whatever their engines and in
whatever order they are. -/
structure JudgedByOutcomes (dec : Decomposition) : Prop where
  failures : dec.failures = 0 ↔ dec.verdict = .winnable
  winnable : dec.verdict = .winnable ↔ ∀ r ∈ dec.pairs, r.report.outcome = .refuted
  notWinnable : dec.verdict = .notWinnable ↔ ∃ r ∈ dec.pairs, r.report.outcome = .holds
  unknown : dec.verdict = .unknown ↔ (¬ ∀ r ∈ dec.pairs, r.report.outcome = .refuted) ∧
    ¬ ∃ r ∈ dec.pairs, r.report.outcome = .holds
  perm : ∀ other : Decomposition, other.pairs.Perm dec.pairs →
    other.verdict = dec.verdict ∧ other.failures = dec.failures

theorem judgedByOutcomes (h : ∀ r ∈ dec.pairs, r.report.JudgedByOutcome) :
    dec.JudgedByOutcomes where
  failures := verdict_eq_winnable_iff.symm
  winnable := verdict_eq_winnable_iff.trans (failures_eq_zero_iff h)
  notWinnable := verdict_eq_notWinnable_iff h
  unknown := by
    rw [← failures_eq_zero_iff h, ← verdict_eq_winnable_iff, ← verdict_eq_notWinnable_iff h]
    cases dec.verdict <;> decide
  perm := by
    intro other hperm
    have hverdicts : other.verdicts.Perm dec.verdicts := hperm.map _
    constructor
    · simp only [verdict, hverdicts.mem_iff]
    · exact (hverdicts.filter _).length_eq

end Decomposition

/-! ## Pairs, systems, questions and answers -/

namespace Decomposer

variable {σ : Type} [Journal (StateM σ)] [Clock (StateM σ)] {d : Decomposer (StateM σ)}

/-- What the pairs of a board are, what is found for them, and how they are checked in turn. -/
structure ChecksInTurn (d : Decomposer (StateM σ)) (jobs : List Job) (st : σ) : Prop where
  boxes : d.board.boxes.Pairwise (· < ·) ∧
    ∀ p, p ∈ d.board.boxes ↔ ∃ t, d.board.get? p = some t ∧ t.hasBox = true
  goals : d.board.goals.Pairwise (· < ·) ∧
    ∀ p, p ∈ d.board.goals ↔ ∃ t, d.board.get? p = some t ∧ t.isGoal = true
  models : (d.models.run.run st).1 = .ok (jobs.map fun job => (job.pair, job.system))
  length : jobs.length = min d.board.boxes.length d.board.goals.length
  pair : ∀ (i : Nat) job, jobs[i]? = some job → job.index = i ∧
    d.board.boxes[i]? = some job.pair.boxed ∧ d.board.goals[i]? = some job.pair.goal
  system : ∀ job ∈ jobs, System.compilePair d.board job.pair d.limit = .ok job.system ∧
    job.system.start.positions .box = [job.pair.boxed] ∧
    job.system.start.positions .keeper = d.board.keepers
  question : ∀ job, d.question job = (job.system, d.stem ++ "_pair" ++ toString job.index)
  context : ∀ job : Job, (Activity.checkingPair job.index job.pair).message =
    "while checking pair " ++ toString job.index ++ ", " ++ job.pair.text
  run : ∃ exchanges, d.transcribed.run.run.run ⟨st, []⟩ =
      ((d.run.run.run st).1, ⟨(d.run.run.run st).2, exchanges⟩) ∧
    d.InTurn jobs exchanges ((d.run.run.run st).1.map (·.pairs))

/-- What a checker makes of all pairs is judged as each of its reports. -/
theorem judgedByOutcomes_of_run (hb : d.board.Drawn) (hc : d.checker.JudgesByOutcome) {st : σ}
    {dec : Decomposition} (h : (d.run.run.run st).1 = .ok dec) : dec.JudgedByOutcomes := by
  obtain ⟨jobs, hjobs⟩ := Board.exists_isJobs hb.fits d.limit
  obtain ⟨exchanges, -, hturn, hgives⟩ := mirrors_run hjobs ⟨st, []⟩
  rw [h] at hturn
  exact Decomposition.judgedByOutcomes (hturn.judgedByOutcome hgives hc)

/-- The pairs of a board are the first box with the first goal and so on, each with a system that
starts with that box and every keeper. The checker is asked about them one after the other, each
under its own stem, until it fails on one of them; that is then the answer, with the pair named. If
it does not, the answer has a report for each pair, and the verdict depends on their outcomes alone,
as long as that of each report does. -/
theorem checksInTurn (hb : d.board.Drawn) :
    (∃ jobs, ∀ st, d.ChecksInTurn jobs st) ∧
      (∀ dec : Decomposition, (∀ r ∈ dec.pairs, r.report.JudgedByOutcome) →
        dec.JudgedByOutcomes) ∧
      (d.checker.JudgesByOutcome → ∀ st dec, (d.run.run.run st).1 = .ok dec →
        dec.JudgedByOutcomes) := by
  obtain ⟨jobs, hjobs⟩ := Board.exists_isJobs hb.fits d.limit
  refine ⟨⟨jobs, fun st => ?_⟩, fun dec => Decomposition.judgedByOutcomes,
    fun hc st dec => judgedByOutcomes_of_run hb hc⟩
  constructor
  case boxes => exact ⟨Board.pairwise_positions _ _, fun _ => Board.mem_positions_iff⟩
  case goals => exact ⟨Board.pairwise_positions _ _, fun _ => Board.mem_positions_iff⟩
  case models => rw [models_eq hjobs, answer_recorded]
  case length => rw [hjobs.length, Board.pairs, List.length_zipWith]
  case pair =>
    intro i job hjob
    obtain ⟨hindex, hpair, -⟩ := hjobs.job i job hjob
    obtain ⟨p, q, hp, hq, heq⟩ := List.getElem?_zipWith_eq_some.1 hpair
    rw [← heq]
    exact ⟨hindex, hp, hq⟩
  case system =>
    intro job hjob
    have hcompile := hjobs.compilePair_eq hjob
    have hbuilt := System.builtFrom_of_compilePair hb.fits hcompile
    rw [hbuilt.start]
    exact ⟨hcompile, State.positions_initial_kept (System.build_of_compilePair hcompile).1,
      State.positions_initial_keeper _ _⟩
  case question => exact fun _ => rfl
  case context => exact fun _ => rfl
  case run =>
    obtain ⟨exchanges, hrun, hturn, -⟩ := mirrors_run hjobs ⟨st, []⟩
    exact ⟨exchanges, hrun, hturn⟩

/-- A corridor with two pairs, and a checker that answers so many times and then no more. -/
def answered (times : Nat) : Decomposer (StateM Memory) where
  board := ⟨[[.keeper, .box, .box, .goal, .goal]], 5, by decide⟩
  limit := 3
  checker := ⟨.bdd, fun _ stem => ExceptT.mk fun memory =>
    (if memory.printed.length < times then .ok (.ofRun .bdd .refuted ⟨0⟩ "" "")
      else Result.fail (.other "no answer"),
      { memory with printed := memory.printed ++ [stem] })⟩
  stem := "s"

theorem judgesByOutcome_answered (times : Nat) : (answered times).checker.JudgesByOutcome := by
  intro s stem memory report h
  change (if memory.printed.length < times then _ else _) = _ at h
  split at h
  · cases h
    exact Report.judgedByOutcome_ofRun _ _ _ _ _
  · cases h

theorem checksInTurn_of_corridor :
    ∃ i j, (answered 1).board.Drawn ∧ (∀ st, (answered 1).ChecksInTurn [i, j] st) ∧
      ((answered 1).run.run.run {}).1.map (·.pairs) = .error (.error
        ⟨.during (.checkingPair 1 ⟨⟨0, 2⟩, ⟨0, 4⟩⟩), [.other "no answer"]⟩) ∧
      ∃ dec, ((answered 2).run.run.run {}).1 = .ok dec ∧ dec.JudgedByOutcomes ∧
        dec.verdict = .winnable := by
  have hb : (answered 1).board.Drawn := ⟨"@$$..", by decide, rfl⟩
  obtain ⟨⟨jobs, hjobs⟩, -⟩ := checksInTurn hb
  have hlength : jobs.length = 2 := (hjobs {}).length
  obtain ⟨i, j, rfl⟩ := List.length_eq_two.1 hlength
  obtain ⟨dec, hdec, houtcomes⟩ : ∃ dec, ((answered 2).run.run.run {}).1 = .ok dec ∧
      ∀ r ∈ dec.pairs, r.report.outcome = .refuted := ⟨_, rfl, by decide⟩
  obtain ⟨-, -, hjudged⟩ := checksInTurn (d := answered 2) hb
  have hdecided := hjudged (judgesByOutcome_answered 2) {} dec hdec
  exact ⟨i, j, hb, hjobs, by rfl, dec, hdec, hdecided, hdecided.winnable.2 houtcomes⟩

end Decomposer

end Sokoban
