import Sokoban.Check.Checker

/-! # The model checker as a command

The model is written into a file, the command is run on it with a script on its input, and what it
prints is kept in another file and classified. If the command fails, the output file stays as it
was.
-/

namespace Sokoban

structure ExternalChecker where
  command : String
  engine : Engine
  directory : String
  deriving DecidableEq

namespace ExternalChecker

def modelPath (c : ExternalChecker) (stem : String) : String :=
  Path.join c.directory (stem ++ ".smv")

/-- The file of the output; each kind of engine has its own. -/
def outputPath (c : ExternalChecker) (stem : String) : String :=
  Path.join c.directory (stem ++ "_" ++ c.engine.tag ++ ".out")

def notices (r : Report) : List Entry :=
  let undecided : List Entry :=
    if r.outcome = .inconclusive then
      [⟨.warn, r.engine.text ++ " is inconclusive on " ++ quoted r.model ++ ", see " ++
        quoted r.output⟩]
    else []
  undecided ++ [⟨.info, r.text⟩]

def outputOf (c : ExternalChecker) (answer : Except CommandRefusal CommandResult) : Result String :=
  let refused (issue : CheckerIssue) (message : String) : Result String :=
    .error (.error ⟨.checker issue, [.system message]⟩)
  match answer with
  | .error (.notStarted message) => refused (.notStarted c.command) message
  | .error (.inputNotSent message) => refused .scriptNotSent message
  | .error (.notAwaited message) => refused (.notAwaited c.command) message
  | .ok result =>
    if result.status.isSuccess then .ok (Text.decodeLossy result.output)
    else
      let complaint := String.ofList (Text.trim (Text.decodeLossy result.complaint).toList)
      Result.fail (.checker (.unsuccessful c.command result.status.text complaint))

variable {m : Type → Type} [Monad m] [Journal m] [Clock m] [Files m] [Commands m]

def check (c : ExternalChecker) (s : System) (stem : String) : ExceptT Fault m Report := do
  whileDoing (.creatingDirectory c.directory) (ask (Files.createDirectories c.directory))
  let model := c.modelPath stem
  let output := c.outputPath stem
  Session.writeModel s model
  note .info ("running " ++ c.engine.text ++ " on " ++ quoted model)
  let begun ← ExceptT.lift Clock.now
  let answer ← ExceptT.lift (Commands.run ⟨c.command, ["-int", model], c.engine.script⟩)
  let printed ← whileDoing (.checkingModel model) (ofResult (c.outputOf answer))
  let ended : Duration ← ExceptT.lift Clock.now
  let elapsed : Duration := ⟨ended.nanoseconds - begun.nanoseconds⟩
  whileDoing (.writingOutput output) (ask (Files.writeFile output printed))
  let report := Report.ofRun c.engine (.ofOutput printed) elapsed model output
  Session.recordAll (notices report)
  return report

def toChecker (c : ExternalChecker) : Checker m := ⟨c.engine, c.check⟩

end ExternalChecker

end Sokoban
