import Sokoban.Proofs.Check.OnDisk

/-!
# The outputs of two runs

A comparison runs the command twice on the same stem. Engines of different kinds have output files
of their own, so both outputs are kept. Bounded engines share one, whatever their depths: there the
second run takes the place of the first.
-/

namespace Sokoban

/-- The output file of a report holds what a run printed, and says what is reported. -/
def Report.KeptOn (r : Report) (disk : Disk) (result : CommandResult) : Prop :=
  ∃ bytes, disk.files r.output = some bytes ∧
    bytes = (Text.decodeLossy result.output).toUTF8 ∧
    Outcome.ofOutput (Text.decodeLossy bytes) = r.outcome

namespace ExternalChecker

variable {s : System} {text : String} {behaviour : Behaviour} {files : FileMap} {runs : List Run}

theorem keptOn_reportOf {c : ExternalChecker} {stem : String} {result : CommandResult}
    {disk : Disk} (elapsed : Duration)
    (h : disk.files (c.outputPath stem) = some (Text.decodeLossy result.output).toUTF8) :
    (c.reportOf stem (Text.decodeLossy result.output) elapsed).KeptOn disk result := by
  refine ⟨_, h, rfl, ?_⟩
  rw [Text.decodeLossy_toUTF8]
  rfl

/-! ## Both runs -/

def filesAfter (c : ExternalChecker) (stem text : String) (files : FileMap)
    (result : CommandResult) : FileMap :=
  (files.write (c.modelPath stem) text).write (c.outputPath stem)
    (Text.decodeLossy result.output)

/-- A check that answers with a report has run its command, which succeeded. -/
theorem check_whenAnswered (h : s.render = .ok text) (c : ExternalChecker) (stem : String) :
    WhenAnswered (Disk.Holds behaviour files runs)
      ((c.toChecker : Checker (StateM Disk)).check s stem) fun report disk => ∃ result elapsed,
        Succeeds (behaviour runs (files.write (c.modelPath stem) text) (c.commandFor stem)) result ∧
        report = c.reportOf stem (Text.decodeLossy result.output) elapsed ∧
        disk.Holds behaviour (c.filesAfter stem text files result)
          (runs ++ [⟨c.commandFor stem, .ok result⟩]) := by
  refine Ensures.mono (ensures_check h c stem) fun r disk hends report hr => ?_
  subst hr
  dsimp only at hends
  generalize hanswer : behaviour runs (files.write (c.modelPath stem) text) (c.commandFor stem) =
    answer at hends ⊢
  rcases c.outputOf_cases answer with ⟨result, hresult, hprinted⟩ | ⟨-, issue, causes, herror⟩
  · rw [hprinted] at hends
    cases hends with
    | reported holds =>
        rw [hresult.1] at holds
        exact ⟨result, _, hresult, rfl, holds⟩
  · rw [herror] at hends
    cases hends

/-- A comparison that answers has run both commands, each of which succeeded. -/
theorem compare_whenAnswered (h : s.render = .ok text) (l r : ExternalChecker) (stem : String) :
    WhenAnswered (Disk.Holds behaviour files runs) (l.toChecker.compare r.toChecker s stem)
      fun cmp disk => ∃ left right elapsed elapsed',
        Succeeds (behaviour runs (files.write (l.modelPath stem) text) (l.commandFor stem)) left ∧
        Succeeds (behaviour (runs ++ [⟨l.commandFor stem, .ok left⟩])
          ((l.filesAfter stem text files left).write (r.modelPath stem) text)
          (r.commandFor stem)) right ∧
        cmp = ⟨l.reportOf stem (Text.decodeLossy left.output) elapsed,
          r.reportOf stem (Text.decodeLossy right.output) elapsed'⟩ ∧
        disk.Holds behaviour (r.filesAfter stem text (l.filesAfter stem text files left) right)
          (runs ++ [⟨l.commandFor stem, .ok left⟩] ++ [⟨r.commandFor stem, .ok right⟩]) := by
  refine (check_whenAnswered h l stem).during.bind fun report => Ensures.of_pre fun disk hdone => ?_
  obtain ⟨left, elapsed, hleft, rfl, hholds⟩ := hdone
  refine ⟨_, hholds, (check_whenAnswered h r stem).during.bind fun report' => ?_⟩
  refine Ensures.of_pre fun disk' hdone' => ?_
  obtain ⟨right, elapsed', hright, rfl, hholds'⟩ := hdone'
  refine ⟨_, hholds', (Ensures.recordAll Disk.ensures_record _).bind_ok
    (.pure fun disk'' hholds'' cmp hcmp => ?_)⟩
  cases hcmp
  exact ⟨left, right, elapsed, elapsed', hleft, hright, rfl, hholds''⟩

/-! ## Comparisons on a disk -/

def compareOn (l r : ExternalChecker) (s : System) (stem : String) (disk : Disk) :
    Result Comparison × Disk :=
  (l.toChecker.compare r.toChecker s stem : ExceptT Fault (StateM Disk) Comparison).run.run disk

/-- If a comparison answers, the output file of each report holds the output of its run. -/
def KeepsBoth (l r : ExternalChecker) (s : System) (stem : String) (disk : Disk) : Prop :=
  ∀ cmp, (l.compareOn r s stem disk).1 = .ok cmp → ∃ left right,
    (l.compareOn r s stem disk).2.runs =
      disk.runs ++ [⟨l.commandFor stem, .ok left⟩, ⟨r.commandFor stem, .ok right⟩] ∧
    cmp.left.KeptOn (l.compareOn r s stem disk).2 left ∧
    cmp.right.KeptOn (l.compareOn r s stem disk).2 right

/-- If a comparison answers, both reports name one output file, which holds the output of the
second run. -/
def KeepsLast (l r : ExternalChecker) (s : System) (stem : String) (disk : Disk) : Prop :=
  ∀ cmp, (l.compareOn r s stem disk).1 = .ok cmp → ∃ left right,
    (l.compareOn r s stem disk).2.runs =
      disk.runs ++ [⟨l.commandFor stem, .ok left⟩, ⟨r.commandFor stem, .ok right⟩] ∧
    cmp.left.output = cmp.right.output ∧
    cmp.right.KeptOn (l.compareOn r s stem disk).2 right

theorem outputPath_eq_iff {l r : ExternalChecker} (hdir : l.directory = r.directory)
    (stem : String) : l.outputPath stem = r.outputPath stem ↔ l.engine.tag = r.engine.tag := by
  rw [outputPath_eq, outputPath_eq, hdir, String.append_right_inj, String.append_left_inj,
    String.append_right_inj]

/-- The second run leaves the output of the first one alone, unless the two share a file. -/
theorem compareOn_spec (h : s.render = .ok text) {l r : ExternalChecker}
    (hdir : l.directory = r.directory) {stem : String} {disk : Disk} {cmp : Comparison}
    (hcmp : (l.compareOn r s stem disk).1 = .ok cmp) :
    ∃ left right,
      (l.compareOn r s stem disk).2.runs =
        disk.runs ++ [⟨l.commandFor stem, .ok left⟩, ⟨r.commandFor stem, .ok right⟩] ∧
      cmp.left.output = l.outputPath stem ∧ cmp.right.output = r.outputPath stem ∧
      (l.outputPath stem ≠ r.outputPath stem →
        cmp.left.KeptOn (l.compareOn r s stem disk).2 left) ∧
      cmp.right.KeptOn (l.compareOn r s stem disk).2 right := by
  obtain ⟨left, right, elapsed, elapsed', -, -, rfl, -, hfiles, hruns⟩ :=
    compare_whenAnswered h l r stem disk ⟨rfl, rfl, rfl⟩ cmp hcmp
  refine ⟨left, right, ?_, rfl, rfl, fun hne => keptOn_reportOf elapsed ?_,
    keptOn_reportOf elapsed' ?_⟩
  · rw [List.append_assoc] at hruns
    exact hruns
  · have hmodel := (modelPath_ne_outputPath hdir.symm stem).symm
    refine (congrFun hfiles _).trans ?_
    rw [filesAfter, FileMap.write_of_ne hne, FileMap.write_of_ne hmodel]
    exact FileMap.write_self _
  · exact (congrFun hfiles _).trans (FileMap.write_self _)

/-- Engines of different kinds keep both outputs, and bounded engines the last one. -/
theorem compare_keeps_outputs {b : Board} {limit : Nat} (hb : b.Drawn)
    (hs : s.CompiledFrom b limit) {l r : ExternalChecker} (hdir : l.directory = r.directory)
    (stem : String) (disk : Disk) :
    (l.engine.tag ≠ r.engine.tag → l.KeepsBoth r s stem disk) ∧
    (l.engine.tag = r.engine.tag → l.KeepsLast r s stem disk) := by
  obtain ⟨text, htext⟩ := hs.exists_render hb.fits
  refine ⟨fun htag cmp hcmp => ?_, fun htag cmp hcmp => ?_⟩
  · obtain ⟨left, right, hruns, -, -, hleft, hright⟩ := compareOn_spec htext hdir hcmp
    exact ⟨left, right, hruns, hleft (mt (outputPath_eq_iff hdir stem).1 htag), hright⟩
  · obtain ⟨left, right, hruns, houtput, houtput', -, hright⟩ := compareOn_spec htext hdir hcmp
    have hsame := (outputPath_eq_iff hdir stem).2 htag
    exact ⟨left, right, hruns, houtput.trans (hsame.trans houtput'.symm), hright⟩

/-! ## Commands that always succeed -/

theorem Ends.exists_report {c : ExternalChecker} {stem printed : String} {r : Result Report}
    {disk : Disk} (h : c.Ends stem behaviour files runs (.ok printed) r disk) :
    (∃ report, r = .ok report) ∧ disk.behaviour = behaviour := by
  cases h with
  | reported holds => exact ⟨⟨_, rfl⟩, holds.1⟩

theorem ensures_check_of_succeeds (h : s.render = .ok text)
    (hall : ∀ runs files command, ∃ result, Succeeds (behaviour runs files command) result)
    (c : ExternalChecker) (stem : String) :
    Ensures (fun disk => disk.behaviour = behaviour)
      ((c.toChecker : Checker (StateM Disk)).check s stem).run
      fun r disk => (∃ report, r = .ok report) ∧ disk.behaviour = behaviour := by
  intro disk hdisk
  have hends := ensures_check h c stem disk ⟨hdisk, rfl, rfl⟩
  obtain ⟨result, hresult⟩ :=
    hall disk.runs (disk.files.write (c.modelPath stem) text) (c.commandFor stem)
  dsimp only at hends
  rw [outputOf_of_succeeds hresult] at hends
  exact hends.exists_report

/-- A comparison answers if both commands succeed. -/
theorem exists_compareOn (h : s.render = .ok text) (disk : Disk)
    (hall : ∀ runs files command, ∃ result, Succeeds (disk.behaviour runs files command) result)
    (l r : ExternalChecker) (stem : String) : ∃ cmp, (l.compareOn r s stem disk).1 = .ok cmp := by
  have hcompare : Ensures (fun d => d.behaviour = disk.behaviour)
      (l.toChecker.compare r.toChecker s stem : ExceptT Fault (StateM Disk) Comparison).run
      fun answer _ => ∃ cmp, answer = .ok cmp := by
    refine ((ensures_check_of_succeeds h hall l stem).during_answers _).bind_answers fun _ => ?_
    refine ((ensures_check_of_succeeds h hall r stem).during_answers _).bind_answers fun _ => ?_
    refine .of_pre fun after hafter =>
      ⟨Disk.Holds disk.behaviour after.files after.runs, ⟨hafter, rfl, rfl⟩, ?_⟩
    exact (Ensures.recordAll Disk.ensures_record _).bind_ok (.pure fun _ _ => ⟨_, rfl⟩)
  exact hcompare disk rfl

/-! ## A board of three cells -/

/-- A disk without files, where the first command prints a text, and every other one another. -/
def printing (first second : String) : Disk where
  files _ := none
  behaviour runs _ _ := .ok ⟨.code 0, (if runs.isEmpty then first else second).toUTF8, .empty⟩

theorem succeeds_printing (first second : String) (runs : List Run) (files : FileMap)
    (command : Command) :
    ∃ result, Succeeds ((printing first second).behaviour runs files command) result :=
  ⟨_, rfl, rfl⟩

theorem decodeLossy_output_printing {first second : String} {runs : List Run} {files : FileMap}
    {command : Command} {result : CommandResult}
    (h : Succeeds ((printing first second).behaviour runs files command) result) :
    Text.decodeLossy result.output = if runs.isEmpty then first else second := by
  rw [← Except.ok.inj h.1]
  exact Text.decodeLossy_toUTF8 _

theorem exists_system_of_three_cells :
    ∃ (b : Board) (s : System), b.Drawn ∧ s.CompiledFrom b 3 := by
  have hb : Board.Drawn ⟨[[.keeper, .box, .goal]], 3, by decide⟩ := ⟨"@$.", by decide, rfl⟩
  obtain ⟨s, hs⟩ := System.exists_compile hb.fits 3
  exact ⟨_, s, hb, .whole hs⟩

/-- A run that proves the property, and a bounded one that refutes it. -/
theorem compare_keeps_outputs_of_two_kinds :
    ∃ (b : Board) (s : System) (l r : ExternalChecker) (cmp : Comparison) (disk : Disk),
      b.Drawn ∧ s.CompiledFrom b 3 ∧ l.directory = r.directory ∧ l.engine.tag ≠ r.engine.tag ∧
      (l.compareOn r s "s" disk).1 = .ok cmp ∧ l.KeepsBoth r s "s" disk := by
  obtain ⟨b, s, hb, hs⟩ := exists_system_of_three_cells
  obtain ⟨text, htext⟩ := hs.exists_render hb.fits
  let l : ExternalChecker := ⟨"nuXmv", .bdd, "out"⟩
  let r : ExternalChecker := ⟨"nuXmv", .bmc 7, "out"⟩
  have hdir : l.directory = r.directory := rfl
  have htag : l.engine.tag ≠ r.engine.tag := by decide
  obtain ⟨cmp, hcmp⟩ :=
    exists_compareOn htext (printing "is true" "is false") (succeeds_printing _ _) l r "s"
  exact ⟨b, s, l, r, cmp, _, hb, hs, hdir, htag, hcmp,
    (compare_keeps_outputs hb hs hdir "s" _).1 htag⟩

/-- Runs up to two depths share an output file, so that of the first one is lost: what the file says
in the end is what the second report says, and the first one says something else. -/
theorem not_forall_keepsBoth :
    ¬ ∀ (b : Board) (limit : Nat) (s : System), b.Drawn → s.CompiledFrom b limit →
      ∀ l r : ExternalChecker, l.directory = r.directory → l.engine ≠ r.engine →
        ∀ (stem : String) (disk : Disk), l.KeepsBoth r s stem disk := by
  intro hkeeps
  obtain ⟨b, s, hb, hs⟩ := exists_system_of_three_cells
  obtain ⟨text, htext⟩ := hs.exists_render hb.fits
  let l : ExternalChecker := ⟨"nuXmv", .bmc 3, "out"⟩
  let r : ExternalChecker := ⟨"nuXmv", .bmc 7, "out"⟩
  let disk := printing "is true" "is false"
  obtain ⟨cmp, hcmp⟩ := exists_compareOn htext disk (succeeds_printing _ _) l r "s"
  obtain ⟨_, _, -, ⟨bytes, hbytes, -, hleft⟩, bytes', hbytes', -, hright⟩ :=
    hkeeps b 3 s hb hs l r rfl (by decide) "s" disk cmp hcmp
  obtain ⟨_, _, _, _, hfirst, hsecond, rfl, -⟩ :=
    compare_whenAnswered htext l r "s" disk ⟨rfl, rfl, rfl⟩ cmp hcmp
  have hsame : bytes = bytes' := Option.some.inj (hbytes.symm.trans hbytes')
  rw [hsame, hright, decodeLossy_output_printing hfirst,
    decodeLossy_output_printing hsecond] at hleft
  have hreports : Outcome.ofOutput "is false" = Outcome.ofOutput "is true" := by
    simpa [reportOf, Report.ofRun, disk, printing] using hleft
  revert hreports
  decide

end ExternalChecker

end Sokoban
