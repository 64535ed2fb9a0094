import Sokoban.Host.Effects
import Sokoban.Host.Tree

/-! # A host in memory

Files are kept in a tree, the journal and the console as lists, and commands are a function. Time
stands still.
-/

namespace Sokoban

structure Memory where
  tree : Tree := {}
  /-- What a command does to the tree, and how it ends; nothing if it cannot be started. -/
  commands : Command → Tree → Option (Tree × CommandResult) := fun _ _ => none
  input : ByteArray := .empty
  journal : List Entry := []
  printed : List String := []
  complained : List String := []

namespace Memory

def write (memory : Memory) (path text : String) : Except Refusal Memory := do
  let place ← memory.tree.filePlace path
  match Device.at? place with
  | none => return { memory with tree := memory.tree.put place text.toUTF8 }
  | some .null => return memory
  | some .full => if text.isEmpty then return memory else .error .noSpace
  | some .input => .error .denied
  | some .output => return { memory with printed := memory.printed ++ [text] }
  | some .complaints => return { memory with complained := memory.complained ++ [text] }

def read (memory : Memory) (path : String) : Except Refusal ByteArray := do
  let place ← memory.tree.filePlace path
  match Device.at? place, memory.tree.file? place with
  | some .null, _ => return .empty
  | some .input, _ => return memory.input
  | some _, _ => .error .denied
  | none, some bytes => return bytes
  | none, none => .error .missing

def createDirectories (memory : Memory) (path : String) : Except Refusal Memory := do
  return { memory with tree := ← memory.tree.createDirectories path }

def serve (service : Memory → Except Refusal Memory) : StateM Memory (Except String Unit) :=
  modifyGet fun memory =>
    match service memory with
    | .ok changed => (.ok (), changed)
    | .error refusal => (.error refusal.message, memory)

instance : Journal (StateM Memory) :=
  ⟨fun entry => modify fun memory => { memory with journal := memory.journal ++ [entry] }⟩

instance : Clock (StateM Memory) := ⟨pure ⟨0⟩⟩

instance : Files (StateM Memory) where
  createDirectories path := serve fun memory => memory.createDirectories path
  createFile path := serve fun memory => memory.write path ""
  writeFile path text := serve fun memory => memory.write path text
  readFile path := modifyGet fun memory => ((memory.read path).mapError Refusal.message, memory)

instance : Commands (StateM Memory) :=
  ⟨fun command => modifyGet fun memory =>
    match memory.commands command memory.tree with
    | some (tree, result) => (.ok result, { memory with tree := tree })
    | none => (.error (.notStarted Refusal.missing.message), memory)⟩

instance : Console (StateM Memory) where
  readInput := modifyGet fun memory => (.ok memory.input, memory)
  print text := modify fun memory => { memory with printed := memory.printed ++ [text] }
  complain text := modify fun memory => { memory with complained := memory.complained ++ [text] }

end Memory

end Sokoban
