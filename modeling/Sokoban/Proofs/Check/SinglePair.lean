import Sokoban.Host.Memory
import Sokoban.Proofs.Check.Transcript
import Sokoban.Proofs.Script.Unambiguous

/-!
# Boards with one box and one goal cell

On such a board nothing is left out for the only pair, and the goal of the pair is that of the
board. So both have the same model, and checking pair by pair cannot go wrong.
-/

namespace Sokoban

theorem Tile.hasBox_of_content? {t : Tile} (h : t.content? = some .box) : t.hasBox = true := by
  cases t <;> first | rfl | cases h

theorem State.initial_of_boxes {b : Board} {p : Pos} (h : b.boxes = [p]) :
    initial b (some p) = initial b none := by
  refine ext_get? (fun q => ?_) rfl
  rw [get?_initial, get?_initial]
  cases ht : b.get? q with
  | none => rfl
  | some t =>
      refine Option.map_congr fun c hc => if_neg ?_
      rintro ⟨rfl, hq⟩
      have hmem : q ∈ b.boxes := Board.mem_positions_iff.2 ⟨t, ht, Tile.hasBox_of_content? hc⟩
      rw [h, List.mem_singleton] at hmem
      exact hq hmem

/-! ## The same model twice -/

namespace System

variable {s t : System} {b c : Board} {limit limit' : Nat} {keep keep' : Option Pos}
  {goal goal' : Goal}

/-- Two systems that differ in the name of their goal at most. -/
structure Coincides (s t : System) : Prop where
  scope : s.scope = t.scope
  start : s.start = t.start
  initial : s.initial = t.initial
  rules : s.rules = t.rules
  property : ∃ f, s.property = .ok f ∧ t.property = .ok f
  isWon : ∀ x, s.isWon x = t.isWon x
  render : ∃ text, s.render = .ok text ∧ t.render = .ok text

theorem SameModel.coincides (h : s.SameModel t) (hs : s.BuiltFrom b limit keep goal)
    (ht : t.BuiltFrom c limit' keep' goal') (hb : b.Fits) (hc : c.Fits)
    (hsgoal : ∀ p ∈ goal.cells, p ∈ s.scope.cells)
    (htgoal : ∀ p ∈ goal'.cells, p ∈ t.scope.cells) : s.Coincides t where
  scope := h.scope
  start := h.start
  initial := by
    have hinitial := hs.initial
    rw [h.scope, h.start, ht.initial] at hinitial
    exact (Except.ok.inj hinitial).symm
  rules := h.rules
  property := by
    refine ⟨_, Goal.property_eq (hs.goal.symm ▸ hsgoal), ?_⟩
    rw [h.goal]
    exact Goal.property_eq (ht.goal.symm ▸ htgoal)
  isWon := by
    intro x
    unfold System.isWon Goal.isWon
    rw [h.goal]
  render := by
    refine ⟨s.wording, hs.render_eq hb hsgoal, ?_⟩
    rw [h.wording_eq]
    exact ht.render_eq hc htgoal

theorem coincides_of_single (hb : b.Fits) {pair : Pair} (hboxes : b.boxes = [pair.boxed])
    (hgoals : b.goals = [pair.goal]) (hs : compile b limit = .ok s)
    (ht : compilePair b pair limit = .ok t) : s.Coincides t := by
  obtain ⟨hsbuilt, hsgoal⟩ := builtFrom_of_build hb hs
  obtain ⟨htbuilt, htgoal⟩ := builtFrom_of_build hb (build_of_compilePair ht).2
  have hscope : s.scope = t.scope := hsbuilt.scope.trans htbuilt.scope.symm
  have hsame : s.SameModel t := by
    refine ⟨hscope, ?_, ?_, ?_⟩
    · rw [hsbuilt.start, htbuilt.start, State.initial_of_boxes hboxes]
    · exact (hsbuilt.rules_eq hb).trans (htbuilt.rules_eq hb).symm
    · rw [hsbuilt.goal, htbuilt.goal]
      exact hgoals
  exact hsame.coincides hsbuilt htbuilt hb hb hsgoal htgoal

end System

/-! ## The same verdict twice -/

variable {σ : Type}

/-- Whether a checker reports on a system, and with which outcome, depends on the text of the system
alone. -/
def Checker.JudgesText (c : Checker (StateM σ)) (judge : String → Option Outcome) : Prop :=
  ∀ s stem st text, s.render = .ok text →
    ((c.check s stem).run.run st).1.toOption.map (·.outcome) = judge text

theorem Decomposition.verdict_of_single {dec : Decomposition} {r : PairReport}
    (h : dec.pairs = [r]) : dec.verdict = r.report.verdict := by
  unfold verdict verdicts
  rw [h]
  cases hr : r.report.verdict <;> simp [hr]

namespace Decomposer

variable {d : Decomposer (StateM σ)} {jobs : List Job} {exchanges : List Exchange}
  {answer : Result (List PairReport)}

theorem InTurn.exists_job (h : d.InTurn jobs exchanges answer) {e : Exchange}
    (he : e ∈ exchanges) : ∃ job ∈ jobs, e.question = d.question job := by
  cases h with
  | all reports =>
      obtain ⟨r, hr, rfl⟩ := List.mem_map.1 he
      exact ⟨r.1, List.mem_map_of_mem hr, rfl⟩
  | upTo reports job fault after =>
      cases List.mem_append.1 he with
      | inl he =>
          obtain ⟨r, hr, rfl⟩ := List.mem_map.1 he
          exact ⟨r.1, List.mem_append_left _ (List.mem_map_of_mem hr), rfl⟩
      | inr he =>
          rw [List.mem_singleton.1 he]
          exact ⟨job, List.mem_append_right _ List.mem_cons_self, rfl⟩

/-- A checker that always reports is asked about every job. -/
theorem InTurn.exists_reports (h : d.InTurn jobs exchanges answer)
    (hreports : ∀ e ∈ exchanges, ∃ report, e.answer = .ok report) :
    ∃ reports : List (Job × Report), jobs = reports.map (·.1) ∧
      exchanges = reports.map (fun r => d.exchange r.1 (.ok r.2)) ∧
      answer = .ok (reports.map fun r => ⟨r.1.index, r.1.pair, r.2⟩) := by
  cases h with
  | all reports => exact ⟨reports, rfl, rfl, rfl⟩
  | upTo reports job fault after =>
      obtain ⟨report, hreport⟩ := hreports (d.exchange job (.error fault)) (by simp)
      cases hreport

variable [Journal (StateM σ)] [Clock (StateM σ)]

theorem exists_verdict_of_single {job : Job} {outcome : Outcome}
    (hjobs : d.board.IsJobs d.limit [job]) (hjudges : d.checker.JudgesByOutcome) (engine : Engine)
    (hcheck : ∀ st, ((d.checker.check job.system (d.stemOf job.index)).run.run st).1.toOption.map
      (·.outcome) = some outcome) (st : σ) :
    ∃ dec, (d.run.run.run st).1 = .ok dec ∧ dec.verdict = .ofOutcome engine outcome := by
  obtain ⟨exchanges, -, hturn, hgives⟩ := mirrors_run hjobs ⟨st, []⟩
  have hreports : ∀ e ∈ exchanges, ∃ report, e.answer = .ok report ∧
      report.verdict = .ofOutcome engine outcome := by
    intro e he
    obtain ⟨_, hjob, hquestion⟩ := hturn.exists_job he
    obtain rfl := List.mem_singleton.1 hjob
    obtain ⟨st', hanswer⟩ := hgives e he
    have houtcome : e.answer.toOption.map (·.outcome) = some outcome := by
      rw [← hanswer, hquestion]
      exact hcheck st'
    cases h : e.answer with
    | ok report =>
        rw [h] at houtcome hanswer
        have hverdict : report.verdict = .ofOutcome report.engine report.outcome :=
          hjudges _ _ st' report hanswer
        obtain rfl : report.outcome = outcome := Option.some.inj houtcome
        exact ⟨report, rfl, hverdict.trans (Verdict.ofOutcome_congr _ _ _)⟩
    | error fault =>
        rw [h] at houtcome
        cases houtcome
  obtain ⟨reports, hall, hexchanges, hanswer⟩ := hturn.exists_reports fun e he =>
    (hreports e he).imp fun _ h => h.1
  obtain ⟨r, rfl, -⟩ := List.map_eq_singleton_iff.1 hall.symm
  obtain ⟨report, hreport, hverdict⟩ := hreports (d.exchange r.1 (.ok r.2)) (by simp [hexchanges])
  obtain rfl := Except.ok.inj hreport
  cases hrun : (d.run.run.run st).1 with
  | error fault =>
      rw [hrun] at hanswer
      cases hanswer
  | ok dec =>
      rw [hrun] at hanswer
      refine ⟨dec, rfl, ?_⟩
      rw [Decomposition.verdict_of_single (Except.ok.inj hanswer)]
      exact hverdict

end Decomposer

namespace Board

variable {b : Board}

/-- With one box cell and one goal cell, the system of the only pair is that of the board in all
that counts, and what a checker finds on the one is what checking pair by pair comes to. -/
theorem exact_of_single (hb : b.Drawn) (hbox : b.boxes.length = 1) (hgoal : b.goals.length = 1)
    (limit : Nat) :
    ∃ pair whole paired, b.pairs = [pair] ∧ System.compile b limit = .ok whole ∧
      System.compilePair b pair limit = .ok paired ∧ whole.Coincides paired ∧
      ∀ (σ : Type) [Journal (StateM σ)] [Clock (StateM σ)] (c : Checker (StateM σ))
        (judge : String → Option Outcome), c.JudgesText judge → c.JudgesByOutcome →
        ∀ (stem : String) (st : σ) (report : Report),
          ((c.check whole stem).run.run st).1 = .ok report →
          ∀ (stem' : String) (st' : σ), ∃ dec,
            ((⟨b, limit, c, stem'⟩ : Decomposer (StateM σ)).run.run.run st').1 = .ok dec ∧
              dec.verdict = report.verdict := by
  obtain ⟨p, hp⟩ := List.length_eq_one_iff.1 hbox
  obtain ⟨q, hq⟩ := List.length_eq_one_iff.1 hgoal
  have hpairs : b.pairs = [⟨p, q⟩] := by
    rw [pairs, hp, hq]
    rfl
  obtain ⟨whole, hwhole⟩ := System.exists_compile hb.fits limit
  obtain ⟨jobs, hjobs⟩ := exists_isJobs hb.fits limit
  obtain ⟨job, rfl⟩ := List.length_eq_one_iff.1 (hjobs.length.trans (congrArg _ hpairs))
  obtain ⟨-, hpair, hpaired⟩ := hjobs.job 0 job rfl
  rw [hpairs] at hpair
  rw [← Option.some.inj hpair] at hpaired
  have hsame := System.coincides_of_single hb.fits hp hq hwhole hpaired
  refine ⟨_, whole, job.system, hpairs, hwhole, hpaired, hsame, ?_⟩
  intro σ _ _ c judge hc hjudges stem st report hreport stem' st'
  obtain ⟨text, htext, htext'⟩ := hsame.render
  have hjudge : judge text = some report.outcome := by
    rw [← hc whole stem st text htext, hreport]
    rfl
  have hverdict : report.verdict = .ofOutcome report.engine report.outcome :=
    hjudges whole stem st report hreport
  rw [hverdict]
  refine Decomposer.exists_verdict_of_single (d := ⟨b, limit, c, stem'⟩) hjobs hjudges report.engine
    (fun st => ?_) st'
  rw [hc job.system _ st text htext', hjudge]

theorem exact_of_corridor :
    ∃ (b : Board) (c : Checker (StateM Memory)) (judge : String → Option Outcome), b.Drawn ∧
      b.boxes.length = 1 ∧ b.goals.length = 1 ∧ c.JudgesText judge ∧ c.JudgesByOutcome ∧ ∃ dec,
        ((⟨b, 3, c, "s"⟩ : Decomposer (StateM Memory)).run.run.run {}).1 = .ok dec ∧
          dec.verdict = .winnable := by
  let b : Board := ⟨[[.keeper, .box, .goal]], 3, by decide⟩
  have hb : b.Drawn := ⟨"@$.", by decide, rfl⟩
  let report : Report := .ofRun .bdd .refuted ⟨0⟩ "" ""
  let c : Checker (StateM Memory) := ⟨.bdd, fun s _ => ofResult (s.render.map fun _ => report)⟩
  have hreport : ∀ s stem st text, s.render = .ok text →
      ((c.check s stem).run.run st).1 = .ok report := by
    intro s stem st text htext
    change s.render.map _ = _
    rw [htext]
    rfl
  have hc : c.JudgesText fun _ => some .refuted := by
    intro s stem st text htext
    rw [hreport s stem st text htext]
    rfl
  have hjudges : c.JudgesByOutcome := by
    intro s stem st other hother
    change s.render.map _ = _ at hother
    cases hrender : s.render with
    | error fault =>
        rw [hrender] at hother
        cases hother
    | ok text =>
        rw [hrender] at hother
        cases hother
        exact Report.judgedByOutcome_ofRun _ _ _ _ _
  obtain ⟨pair, whole, paired, -, -, -, hsame, hexact⟩ := exact_of_single hb rfl rfl 3
  obtain ⟨text, htext, -⟩ := hsame.render
  exact ⟨b, c, _, hb, rfl, rfl, hc, hjudges,
    hexact Memory c _ hc hjudges "whole" {} report (hreport whole "whole" {} text htext) "s" {}⟩

end Board

end Sokoban
