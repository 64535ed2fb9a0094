import Sokoban.Cli.Run

/-! # The program

The host is the machine itself: its files, its clock and its console. Entries of the journal are
shown from a level on. This host starts no commands, so a check ends with the model written and the
error that its command could not be run.
-/

namespace Sokoban

/-- Computations on the machine, which show the journal from a level on. -/
abbrev Machine := ReaderT Level IO

namespace Machine

def answer {α : Type} (service : IO α) : Machine (Except String α) := fun _ => do
  try
    return .ok (← service)
  catch e =>
    return .error (toString e)

instance : Journal Machine :=
  ⟨fun entry threshold => do
    if threshold.rank ≤ entry.level.rank then
      IO.println ("[" ++ entry.level.text ++ "] " ++ entry.message)⟩

instance : Clock Machine := ⟨fun _ => do return ⟨← IO.monoNanosNow⟩⟩

instance : Files Machine where
  createDirectories path :=
    if path.isEmpty then return .ok () else answer (IO.FS.createDirAll path)
  createFile path := answer (IO.FS.writeFile path "")
  writeFile path text := answer (IO.FS.writeFile path text)
  readFile path := answer (IO.FS.readBinFile path)

instance : Commands Machine :=
  ⟨fun _ => return .error (.notStarted "this host starts no commands")⟩

instance : Console Machine where
  readInput := answer do (← IO.getStdin).readBinToEnd
  print text := fun _ => IO.print text
  complain text := fun _ => IO.eprint text

end Machine

end Sokoban

/-- Runs the command line; one that cannot be understood ends with code 2. -/
def main (words : List String) : IO UInt32 := do
  match Sokoban.Cli.Invocation.parse words with
  | some invocation =>
    let code ← (Sokoban.Cli.run invocation : Sokoban.Machine UInt8) invocation.threshold
    return code.toUInt32
  | none =>
    IO.eprintln "error: the command line was not understood"
    return 2
