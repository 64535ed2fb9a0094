import Sokoban.Board.Reading
import Sokoban.Host.Effects
import Sokoban.Model.Script

/-! # Computations that keep a journal

Reading a board, pairing its boxes and compiling it leave entries in the journal; what they answer
is the answer of the plain computation.
-/

namespace Sokoban

def Board.notices (b : Board) : List Entry :=
  let keepers := b.keepers.length
  let several : List Entry :=
    if 1 < keepers then [⟨.warn, "board has " ++ toString keepers ++ " keepers"⟩] else []
  several ++
    [⟨.debug, "parsed " ++ toString b.height ++ "x" ++ toString b.width ++ " board, " ++
      toString b.boxes.length ++ " box(es), " ++ toString b.goals.length ++ " goal(s)"⟩]

def Board.pairNotices (b : Board) : List Entry :=
  let boxes := b.boxes.length
  let goals := b.goals.length
  if boxes = goals then []
  else
    [⟨.warn, "board has " ++ toString boxes ++ " box(es) but " ++ toString goals ++
      " goal(s), only " ++ toString (min boxes goals) ++ " pair(s) will be checked"⟩]

def System.notice (s : System) : Entry :=
  ⟨.debug, "compiled " ++ toString s.rules.length ++ " rule(s) over " ++
    toString s.scope.cells.size ++ " cell(s), goal: " ++ s.goal.text⟩

namespace Session

variable {m : Type → Type} [Monad m] [Journal m]

def recordAll (entries : List Entry) : ExceptT Fault m Unit :=
  entries.forM fun e => note e.level e.message

def readBoard (drawing : String) : ExceptT Fault m Board := do
  let b ← ofResult (Board.parse drawing)
  recordAll b.notices
  return b

def pairs (b : Board) : ExceptT Fault m (List Pair) := do
  recordAll b.pairNotices
  return b.pairs

def compile (b : Board) (limit : Nat) : ExceptT Fault m System := do
  let s ← ofResult (System.compile b limit)
  recordAll [s.notice]
  return s

def compilePair (b : Board) (pair : Pair) (limit : Nat) : ExceptT Fault m System := do
  let s ← ofResult (System.compilePair b pair limit)
  recordAll [s.notice]
  return s

def pairAt (b : Board) (index : Nat) : ExceptT Fault m Pair := do
  let found ← pairs b
  match found[index]? with
  | some pair => return pair
  | none => ofResult (Result.fail (.noPair index found.length))

variable [Files m]

/-- The bytes of a model that are kept back until the file is closed. -/
def bufferSize : Nat := 8192

/-- Writes a system into a file. A model that fits into the buffer is written when the file is
closed; if that is refused, nothing else is named in the error. -/
def writeModel (s : System) (path : String) : ExceptT Fault m Unit := do
  whileDoing (.creatingModel path) (ask (Files.createFile path))
  let model ← whileDoing (.writingModel path) (ofResult s.render)
  let write := ask (Files.writeFile path model)
  if model.utf8ByteSize ≤ bufferSize then write
  else whileDoing (.writingModel path) write
  note .debug ("model written to " ++ quoted path)

end Session

end Sokoban
