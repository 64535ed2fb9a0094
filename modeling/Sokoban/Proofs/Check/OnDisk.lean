import Sokoban.Proofs.Check.FileNames
import Sokoban.Proofs.Host.Disk
import Sokoban.Proofs.Model.Totality

/-!
# What a check leaves on a disk

On a disk nothing is refused, so a check depends on the command alone. If the command succeeds, the
two files are those of this run; if it does not, the output file stays as it was.
-/

namespace Sokoban

theorem Text.decodeLossy_toUTF8 (text : String) : decodeLossy text.toUTF8 = text := by
  have hvalid : String.fromUTF8? text.toUTF8 = some text := dif_pos text.isValidUTF8
  rw [decodeLossy, hvalid]

def Succeeds (answer : Except CommandRefusal CommandResult) (result : CommandResult) : Prop :=
  answer = .ok result ∧ result.status.isSuccess = true

theorem Report.JudgedByOutcome.mem {r : Report} (h : r.JudgedByOutcome) :
    (r.outcome, r.verdict) ∈ [(Outcome.refuted, Verdict.winnable), (.holds, .notWinnable),
      (.inconclusive, .unknown)] := by
  rw [h, Verdict.ofOutcome_congr _ .bdd]
  cases r.outcome <;> decide

namespace ExternalChecker

/-! ## How the command ends -/

section Answer

variable {c : ExternalChecker} {answer : Except CommandRefusal CommandResult}

theorem outputOf_of_succeeds {result : CommandResult} (h : Succeeds answer result) :
    c.outputOf answer = .ok (Text.decodeLossy result.output) := by
  obtain ⟨rfl, hstatus⟩ := h
  simp only [outputOf, hstatus]
  rfl

/-- Whatever else becomes of the command is an issue with the checker. -/
theorem exists_outputOf_eq_error (h : ∀ result, ¬ Succeeds answer result) :
    ∃ issue causes, c.outputOf answer = .error (.error ⟨.checker issue, causes⟩) := by
  cases answer with
  | error refusal =>
      cases refusal with
      | notStarted message => exact ⟨_, _, rfl⟩
      | inputNotSent message => exact ⟨_, _, rfl⟩
      | notAwaited message => exact ⟨_, _, rfl⟩
  | ok result =>
      have hstatus : result.status.isSuccess = false :=
        Bool.eq_false_iff.2 fun htrue => h result ⟨rfl, htrue⟩
      simp only [outputOf, hstatus]
      exact ⟨_, _, rfl⟩

/-- A command succeeds and has printed something, or there is an issue with the checker. -/
theorem outputOf_cases (c : ExternalChecker) (answer : Except CommandRefusal CommandResult) :
    (∃ result, Succeeds answer result ∧
      c.outputOf answer = .ok (Text.decodeLossy result.output)) ∨
    (∀ result, ¬ Succeeds answer result) ∧
      ∃ issue causes, c.outputOf answer = .error (.error ⟨.checker issue, causes⟩) := by
  by_cases hsucceeds : ∃ result, Succeeds answer result
  · obtain ⟨result, hresult⟩ := hsucceeds
    exact .inl ⟨result, hresult, outputOf_of_succeeds hresult⟩
  · rw [not_exists] at hsucceeds
    exact .inr ⟨hsucceeds, exists_outputOf_eq_error hsucceeds⟩

end Answer

/-! ## The course of a check -/

variable {s : System} {text : String} {behaviour : Behaviour} {files : FileMap} {runs : List Run}

theorem ensures_writeModel (h : s.render = .ok text) (path : String) :
    Ensures (Disk.Holds behaviour files runs) (Session.writeModel s path).run fun r disk =>
      r = .ok () ∧ Disk.Holds behaviour (files.write path text) runs disk := by
  have hcreate : Ensures (Disk.Holds behaviour files runs) (Files.createFile path) _ :=
    Disk.ensures_write path ""
  have hwrite : Ensures (Disk.Holds behaviour (files.write path "") runs)
      (Files.writeFile path text) _ := Disk.ensures_write path text
  rw [FileMap.write_write] at hwrite
  have hnote : Ensures (Disk.Holds behaviour (files.write path text) runs)
      (note .debug ("model written to " ++ quoted path)).run _ := .note Disk.ensures_record _ _
  unfold Session.writeModel
  rw [h]
  refine (hcreate.ask_ok.during_ok _).bind_ok ?_
  refine ((Ensures.ofResult (.ok text)).during_ok _).bind_ok ?_
  dsimp only
  split
  · exact hwrite.ask_ok.bind_ok hnote
  · exact (hwrite.ask_ok.during_ok _).bind_ok hnote

def commandFor (c : ExternalChecker) (stem : String) : Command :=
  ⟨c.command, ["-int", c.modelPath stem], c.engine.script⟩

def reportOf (c : ExternalChecker) (stem printed : String) (elapsed : Duration) : Report :=
  .ofRun c.engine (.ofOutput printed) elapsed (c.modelPath stem) (c.outputPath stem)

/-- What becomes of a check, going by what the command printed if it succeeded. -/
inductive Ends (c : ExternalChecker) (stem : String) (behaviour : Behaviour) (written : FileMap)
    (runs : List Run) : Result String → Result Report → Disk → Prop
  | reported {printed : String} {elapsed : Duration} {disk : Disk}
      (holds : disk.Holds behaviour (written.write (c.outputPath stem) printed) runs) :
      Ends c stem behaviour written runs (.ok printed) (.ok (c.reportOf stem printed elapsed)) disk
  | failed {fault : Fault} {disk : Disk} (holds : disk.Holds behaviour written runs) :
      Ends c stem behaviour written runs (.error fault)
        (.error (fault.during (.checkingModel (c.modelPath stem)))) disk

theorem ensures_check (h : s.render = .ok text) (c : ExternalChecker) (stem : String) :
    Ensures (Disk.Holds behaviour files runs) (c.check s stem).run fun r disk =>
      let written := files.write (c.modelPath stem) text
      let answer := behaviour runs written (c.commandFor stem)
      c.Ends stem behaviour written (runs ++ [⟨c.commandFor stem, answer⟩]) (c.outputOf answer) r
        disk := by
  have hdirectory : Ensures (Disk.Holds behaviour files runs)
      (Files.createDirectories c.directory : StateM Disk _)
      fun r disk => r = .ok () ∧ Disk.Holds behaviour files runs disk :=
    .pure fun _ hdisk => ⟨rfl, hdisk⟩
  dsimp only
  unfold ExternalChecker.check
  refine (hdirectory.ask_ok.during_ok _).bind_ok ?_
  refine (ensures_writeModel h _).bind_ok ?_
  refine (Ensures.note Disk.ensures_record _ _).bind_ok ?_
  refine Disk.ensures_now.bind_lift fun begun => ?_
  refine (Disk.ensures_run (c.commandFor stem)).bind_lift fun answer => ?_
  rintro disk ⟨hanswer, hdisk⟩
  rw [← hanswer]
  cases hprinted : c.outputOf answer with
  | error fault => exact Ends.failed hdisk
  | ok printed =>
      refine Ensures.bind_ok (.during_ok _ (.ofResult (.ok printed))) ?_ disk hdisk
      refine Disk.ensures_now.bind_lift fun ended => ?_
      refine ((Disk.ensures_write _ printed).ask_ok.during_ok _).bind_ok ?_
      refine (Ensures.recordAll Disk.ensures_record _).bind_ok ?_
      exact .pure fun _ hdisk => Ends.reported hdisk

/-! ## Both files of a check -/

def checkOn (c : ExternalChecker) (s : System) (stem : String) (disk : Disk) :
    Result Report × Disk :=
  (c.check s stem : ExceptT Fault (StateM Disk) Report).run.run disk

def answerOn (c : ExternalChecker) (stem text : String) (disk : Disk) :
    Except CommandRefusal CommandResult :=
  disk.behaviour disk.runs (disk.files.write (c.modelPath stem) text) (c.commandFor stem)

/-- The files after a command that succeeded, with what is reported: both are those of this run. -/
structure Kept (c : ExternalChecker) (stem text printed : String) (before after : FileMap)
    (r : Report) : Prop where
  engine : r.engine = c.engine
  model : r.model = c.modelPath stem
  output : r.output = c.outputPath stem
  modelHolds : after r.model = some text.toUTF8
  outputHolds : after r.output = some printed.toUTF8
  outcome : r.outcome = .ofOutput printed
  verdict : (r.outcome, r.verdict) ∈
    [(.refuted, .winnable), (.holds, .notWinnable), (.inconclusive, .unknown)]
  others : ∀ file, file ≠ r.model → file ≠ r.output → after file = before file

/-- The files after a command that did not succeed, with the error: only the model is new. -/
structure Failed (c : ExternalChecker) (stem text : String) (before after : FileMap)
    (e : Error) : Prop where
  message : e.message = "while checking " ++ quoted (c.modelPath stem)
  causes : ∃ issue more, e.causes = .checker issue :: more
  modelHolds : after (c.modelPath stem) = some text.toUTF8
  outputSame : after (c.outputPath stem) = before (c.outputPath stem)
  others : ∀ file, file ≠ c.modelPath stem → after file = before file

theorem kept_write (c : ExternalChecker) (stem text printed : String) (before : FileMap)
    (elapsed : Duration) :
    c.Kept stem text printed before
      ((before.write (c.modelPath stem) text).write (c.outputPath stem) printed)
      (c.reportOf stem printed elapsed) where
  engine := rfl
  model := rfl
  output := rfl
  modelHolds :=
    (FileMap.write_of_ne (modelPath_ne_outputPath rfl stem) _).trans (FileMap.write_self _)
  outputHolds := FileMap.write_self _
  outcome := rfl
  verdict := (Report.judgedByOutcome_ofRun _ _ _ _ _).mem
  others := fun _ hmodel houtput =>
    (FileMap.write_of_ne houtput _).trans (FileMap.write_of_ne hmodel _)

theorem failed_write (c : ExternalChecker) (stem text : String) (before : FileMap)
    (issue : CheckerIssue) (causes : List Issue) :
    c.Failed stem text before (before.write (c.modelPath stem) text)
      ⟨.during (.checkingModel (c.modelPath stem)), .checker issue :: causes⟩ where
  message := rfl
  causes := ⟨issue, causes, rfl⟩
  modelHolds := FileMap.write_self _
  outputSame := FileMap.write_of_ne (modelPath_ne_outputPath rfl stem).symm _
  others := fun _ hfile => FileMap.write_of_ne hfile _

/-- On a disk, a check of a compiled system answers with a report if its command succeeds, and with
an error otherwise. -/
theorem check_on_disk {b : Board} {limit : Nat} (hb : b.Drawn) (hs : s.CompiledFrom b limit)
    (c : ExternalChecker) (stem : String) (disk : Disk) :
    ∃ text, s.render = .ok text ∧
      let answer := c.answerOn stem text disk
      let ended := c.checkOn s stem disk
      (∀ result, Succeeds answer result → ∃ report, ended.1 = .ok report) ∧
      (∀ report, ended.1 = .ok report → ∃ result, Succeeds answer result ∧
        c.Kept stem text (Text.decodeLossy result.output) disk.files ended.2.files report) ∧
      ((∀ result, ¬ Succeeds answer result) → ∃ e, ended.1 = .error (.error e) ∧
        c.Failed stem text disk.files ended.2.files e) := by
  obtain ⟨text, htext⟩ := hs.exists_render hb.fits
  refine ⟨text, htext, ?_⟩
  have hends := ensures_check htext c stem disk ⟨rfl, rfl, rfl⟩
  change c.Ends stem disk.behaviour _ _ (c.outputOf (c.answerOn stem text disk))
    (c.checkOn s stem disk).1 (c.checkOn s stem disk).2 at hends
  dsimp only
  generalize c.answerOn stem text disk = answer at hends ⊢
  generalize c.checkOn s stem disk = ended at hends ⊢
  obtain ⟨r, after⟩ := ended
  rcases c.outputOf_cases answer with
    ⟨result, hresult, hprinted⟩ | ⟨hsucceeds, issue, causes, herror⟩
  · rw [hprinted] at hends
    cases hends with
    | reported holds =>
        obtain ⟨-, hfiles, -⟩ := holds
        refine ⟨fun _ _ => ⟨_, rfl⟩, ?_, fun hnone => absurd hresult (hnone result)⟩
        rintro report ⟨⟩
        refine ⟨result, hresult, ?_⟩
        rw [hfiles]
        exact c.kept_write stem text _ disk.files _
  · rw [herror] at hends
    cases hends with
    | failed holds =>
        obtain ⟨-, hfiles, -⟩ := holds
        refine ⟨fun result hresult => absurd hresult (hsucceeds result), ?_, fun _ => ?_⟩
        · rintro report ⟨⟩
        · refine ⟨_, rfl, ?_⟩
          rw [hfiles]
          exact c.failed_write stem text disk.files issue causes

/-- A board of three cells, and an output file of an earlier run that said the opposite. -/
theorem check_on_disk_of_earlier_output :
    ∃ (b : Board) (s : System) (text : String) (disk : Disk) (report : Report),
      b.Drawn ∧ System.compile b 3 = .ok s ∧ s.render = .ok text ∧
      disk.files "out/s_bdd.out" = some "is true".toUTF8 ∧
      let ended := checkOn ⟨"nuXmv", .bdd, "out"⟩ s "s" disk
      ended.1 = .ok report ∧ report.verdict = .winnable ∧
      ended.2.files "out/s.smv" = some text.toUTF8 ∧
      ended.2.files "out/s_bdd.out" = some "is false".toUTF8 := by
  have hb : Board.Drawn ⟨[[.keeper, .box, .goal]], 3, by decide⟩ := ⟨"@$.", by decide, rfl⟩
  obtain ⟨s, hs⟩ := System.exists_compile hb.fits 3
  let result : CommandResult := ⟨.code 0, "is false".toUTF8, .empty⟩
  let disk : Disk :=
    { files := fun _ => some "is true".toUTF8, behaviour := fun _ _ _ => .ok result }
  obtain ⟨text, htext, hanswers, hkept, -⟩ :=
    check_on_disk hb (.whole hs) ⟨"nuXmv", .bdd, "out"⟩ "s" disk
  obtain ⟨report, hreport⟩ := hanswers result ⟨rfl, rfl⟩
  obtain ⟨_, ⟨hresult, -⟩, hfiles⟩ := hkept report hreport
  cases hresult
  have hmodel := hfiles.modelHolds
  have houtput := hfiles.outputHolds
  have houtcome := hfiles.outcome
  rw [hfiles.model] at hmodel
  rw [hfiles.output, Text.decodeLossy_toUTF8] at houtput
  have hrefuted : Outcome.ofOutput "is false" = .refuted := by decide
  rw [Text.decodeLossy_toUTF8, hrefuted] at houtcome
  have hverdict : report.verdict = .winnable := by simpa [houtcome] using hfiles.verdict
  exact ⟨_, s, text, disk, report, hb, hs, htext, rfl, hreport, hverdict, hmodel, houtput⟩

end ExternalChecker

end Sokoban
