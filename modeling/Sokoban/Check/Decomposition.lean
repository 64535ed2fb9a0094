import Sokoban.Check.Checker

/-! # Checking a board pair by pair

Instead of the whole board, each pair of a box and a goal is checked for itself, with the other
boxes left out. The board is deemed winnable if every pair is. This can be wrong in both directions:
boxes get in each other's way, and a solution may pair them differently.
-/

namespace Sokoban

structure PairReport where
  index : Nat
  pair : Pair
  report : Report
  deriving DecidableEq

def PairReport.text (r : PairReport) : String :=
  "pair " ++ toString r.index ++ ", " ++ r.pair.text ++ ": " ++ r.report.verdict.text ++ " in " ++
    r.report.elapsed.text

structure Decomposition where
  pairs : List PairReport
  elapsed : Duration
  deriving DecidableEq

namespace Decomposition

def verdicts (d : Decomposition) : List Verdict := d.pairs.map (·.report.verdict)

/-- The number of pairs that were not found winnable. -/
def failures (d : Decomposition) : Nat := (d.verdicts.filter fun v => !v.isWinnable).length

/-- Not winnable if a pair is not, otherwise unknown if a pair is unknown, otherwise winnable. -/
def verdict (d : Decomposition) : Verdict :=
  if .notWinnable ∈ d.verdicts then .notWinnable
  else if .unknown ∈ d.verdicts then .unknown
  else .winnable

def text (d : Decomposition) : String :=
  String.join (d.pairs.map fun r => r.text ++ "\n") ++
    d.verdict.text ++ " (" ++ toString d.pairs.length ++ " pair(s), " ++ toString d.failures ++
    " failure(s)) in " ++ d.elapsed.text

end Decomposition

structure Job where
  index : Nat
  pair : Pair
  system : System

/-- How far a thread has come. -/
inductive Stage where
  /-- The checker has not been asked yet. -/
  | waiting
  /-- The checker has answered. -/
  | answered (answer : Result Report)
  /-- The thread has ended, and this is what it leaves behind. -/
  | ended (answer : Result PairReport)

structure Thread where
  job : Job
  stage : Stage

/-- The threads, by their index, that take turns before they are waited for, one after the other. A
thread whose index comes twice ends on its own, and whatever is then left to do of a thread is done
when it is waited for. So the turns of the threads may mix in any way. -/
structure Schedule where
  turns : List Nat

/-- No thread gets ahead: each one begins when it is waited for. -/
def Schedule.inOrder : Schedule := ⟨[]⟩

structure Decomposer (m : Type → Type) where
  board : Board
  limit : Nat
  checker : Checker m
  stem : String

namespace Decomposer

variable {m : Type → Type} [Monad m] [Journal m] [Clock m]

def stemOf (d : Decomposer m) (index : Nat) : String := d.stem ++ "_pair" ++ toString index

def models (d : Decomposer m) : ExceptT Fault m (List (Pair × System)) := do
  (← Session.pairs d.board).mapM fun pair => do
    let system ← whileDoing (.compilingPair pair) (Session.compilePair d.board pair d.limit)
    return (pair, system)

def jobs (d : Decomposer m) : ExceptT Fault m (List Job) := do
  return (← d.models).zipIdx.map fun ((pair, system), index) => ⟨index, pair, system⟩

def consult (d : Decomposer m) (job : Job) : ExceptT Fault m Report :=
  whileDoing (.checkingPair job.index job.pair)
    (d.checker.check job.system (d.stemOf job.index))

def conclude (job : Job) (report : Report) : ExceptT Fault m PairReport := do
  let result : PairReport := ⟨job.index, job.pair, report⟩
  note .info result.text
  return result

def checkJob (d : Decomposer m) (job : Job) : ExceptT Fault m PairReport := do
  conclude job (← d.consult job)

def since (begun : Duration) : ExceptT Fault m Duration := do
  let ended : Duration ← ExceptT.lift Clock.now
  return ⟨ended.nanoseconds - begun.nanoseconds⟩

/-- Checks the pairs one after the other, until one of them fails. -/
def run (d : Decomposer m) : ExceptT Fault m Decomposition := do
  let begun ← ExceptT.lift Clock.now
  let pairs ← (← d.jobs).mapM d.checkJob
  return ⟨pairs, ← since begun⟩

/-- The crash of a checker on its own is an error of the whole. -/
def settled : Result PairReport → Result PairReport
  | .error (.crash _) => Result.fail (.model .checkerCrashed)
  | answer => answer

/-- What a thread does in its turn: it asks the checker, or it ends with what was answered. -/
def turn (d : Decomposer m) (t : Thread) : m Thread :=
  match t.stage with
  | .waiting => return ⟨t.job, .answered (← (d.consult t.job).run)⟩
  | .answered answer => return ⟨t.job, .ended (← (ofResult answer >>= conclude t.job).run)⟩
  | .ended _ => return t

def turnOf (d : Decomposer m) (threads : List Thread) (index : Nat) : m (List Thread) :=
  match threads[index]? with
  | some t => return threads.set index (← d.turn t)
  | none => return threads

/-- Waits for a thread, which does what is left to do for it. -/
def join (d : Decomposer m) (t : Thread) : m (Result PairReport) :=
  match t.stage with
  | .waiting => (d.checkJob t.job).run
  | .answered answer => (ofResult answer >>= conclude t.job).run
  | .ended answer => return answer

/-- Checks all pairs, each in a thread of its own, whose turns are mixed by a schedule. The threads
are waited for in the order of the pairs, and the first failure among their answers is the answer.
-/
def runParallel (d : Decomposer m) (schedule : Schedule) : ExceptT Fault m Decomposition := do
  let begun ← ExceptT.lift Clock.now
  let jobs ← d.jobs
  let started := jobs.map fun job => (⟨job, .waiting⟩ : Thread)
  let threads ← ExceptT.lift (schedule.turns.foldlM d.turnOf started)
  let answers ← ExceptT.lift (threads.mapM d.join)
  let pairs ← ofResult (answers.mapM settled)
  return ⟨pairs, ← since begun⟩

end Decomposer

end Sokoban
