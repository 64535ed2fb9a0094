import Sokoban.Check.Decomposition
import Sokoban.Cli.Options

/-! # Running a command line

Without a board of its own a command line is about one that is there to show.
-/

namespace Sokoban.Board

def demo : String :=
  String.join
    ["#########\n", "#@______#\n", "#_______#\n", "#_____..#\n", "#____#$$#\n", "#____#__#\n",
     "#____#__#\n", "#########\n"]

def demoCross : String :=
  String.join
    ["#########\n", "####.####\n", "####$####\n", "####_####\n", "#.$_@_$.#\n", "####_####\n",
     "####$####\n", "####.####\n", "#########\n"]

end Sokoban.Board

namespace Sokoban.Cli

variable {m : Type → Type} [Monad m] [Journal m] [Clock m] [Files m] [Commands m] [Console m]

def illFormed : String := "stream did not contain valid UTF-8"

def textOf (bytes : ByteArray) : Except String String :=
  match String.fromUTF8? bytes with
  | some text => .ok text
  | none => .error illFormed

def readText (bytes : m (Except String ByteArray)) : ExceptT Fault m String :=
  ask do return (← bytes) >>= textOf

/-- The drawing of the board: from the input, from a file, or the one to show. -/
def drawing (board : Option String) : ExceptT Fault m String :=
  match board with
  | none => do
    note .info "no board given, using the demo board"
    return Board.demo
  | some path =>
    if path = "-" then whileDoing .readingInput (readText Console.readInput)
    else whileDoing (.readingBoard path) (readText (Files.readFile path))

def loadBoard (board : Option String) : ExceptT Fault m Board := do
  let b ← Session.readBoard (← drawing board)
  note .debug ("board:\n" ++ b.text)
  return b

def print (text : String) : ExceptT Fault m Unit := ExceptT.lift (Console.print text)

def perform (i : Invocation) (b : Board) : Task → ExceptT Fault m Unit
  | .compile output pair => do
    let s ←
      match pair with
      | none => Session.compile b i.limit
      | some index => do Session.compilePair b (← Session.pairAt b index) i.limit
    match output with
    | none => print (← ofResult s.render)
    | some path => do
      Session.writeModel s path
      note .info ("model written to " ++ quoted path)
  | .check => do
    let s ← Session.compile b i.limit
    let report ← i.settings.checker.check s i.stem
    print (report.verdict.text ++ "\n")
    print (report.text ++ "\n")
  | .compare => do
    let s ← Session.compile b i.limit
    let bdd := { i.settings.checker with engine := .bdd }
    let bmc := { i.settings.checker with engine := .bmc i.depth }
    let comparison ← Checker.compare bdd.toChecker bmc.toChecker s i.stem
    print (comparison.text ++ "\n")
  | .decompose parallel => do
    let d : Decomposer m := ⟨b, i.limit, i.settings.checker.toChecker, i.stem⟩
    let decomposition ← if parallel then d.runParallel .inOrder else d.run
    print (decomposition.text ++ "\n")

def complain (e : Error) : m Unit := do
  Console.complain ("error: " ++ e.message ++ "\n")
  e.causes.forM fun cause => Console.complain ("  caused by: " ++ cause.message ++ "\n")

def run (i : Invocation) : m UInt8 := do
  let done : Result Unit ← (do perform i (← loadBoard i.board) i.task : ExceptT Fault m Unit).run
  match done with
  | .ok () => return 0
  | .error (.error e) => complain e; return 2
  | .error (.crash c) => Console.complain (c.message ++ "\n"); return 101

end Sokoban.Cli
