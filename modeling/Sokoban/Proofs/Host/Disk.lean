import Mathlib.Logic.Function.Basic
import Sokoban.Host.Tree
import Sokoban.Proofs.Host.Ensures
import Sokoban.Session

/-!
# A disk

A host whose files are a map from paths to bytes. Directories are made and files written whenever
that is asked for. Commands end in any way, which may depend on the files as they find them and on
what was run before; they leave the files alone.
-/

namespace Sokoban

abbrev FileMap := String → Option ByteArray

structure Run where
  command : Command
  answer : Except CommandRefusal CommandResult

/-- How a command ends: by what was run before it, and by the files. -/
abbrev Behaviour := List Run → FileMap → Command → Except CommandRefusal CommandResult

structure Disk where
  files : FileMap
  behaviour : Behaviour
  runs : List Run := []
  times : Nat → Duration := fun _ => ⟨0⟩
  looks : Nat := 0

def FileMap.write (files : FileMap) (path text : String) : FileMap :=
  Function.update files path (some text.toUTF8)

namespace FileMap

variable {files : FileMap} {path file : String}

@[simp] theorem write_self (text : String) : files.write path text path = some text.toUTF8 :=
  Function.update_self ..

theorem write_of_ne (h : file ≠ path) (text : String) : files.write path text file = files file :=
  Function.update_of_ne h ..

/-- What a file held before it was written leaves no trace. -/
@[simp] theorem write_write (first second : String) :
    (files.write path first).write path second = files.write path second :=
  Function.update_idem ..

end FileMap

namespace Disk

instance : Journal (StateM Disk) := ⟨fun _ => pure ()⟩

instance : Clock (StateM Disk) :=
  ⟨modifyGet fun disk => (disk.times disk.looks, { disk with looks := disk.looks + 1 })⟩

def write (path text : String) : StateM Disk (Except String Unit) :=
  modifyGet fun disk => (.ok (), { disk with files := disk.files.write path text })

instance : Files (StateM Disk) where
  createDirectories _ := pure (.ok ())
  createFile path := write path ""
  writeFile path text := write path text
  readFile path := modifyGet fun disk =>
    (match disk.files path with
      | some bytes => .ok bytes
      | none => .error Refusal.missing.message, disk)

instance : Commands (StateM Disk) :=
  ⟨fun command => modifyGet fun disk =>
    let answer := disk.behaviour disk.runs disk.files command
    (answer, { disk with runs := disk.runs ++ [⟨command, answer⟩] })⟩

def answerTo (disk : Disk) (command : Command) : Except CommandRefusal CommandResult :=
  disk.behaviour disk.runs disk.files command

/-- A disk that differs at most in its files, in what was run, and in the time. -/
def Holds (behaviour : Behaviour) (files : FileMap) (runs : List Run) (disk : Disk) : Prop :=
  disk.behaviour = behaviour ∧ disk.files = files ∧ disk.runs = runs

variable {behaviour : Behaviour} {files : FileMap} {runs : List Run}

theorem ensures_record (e : Entry) :
    Ensures (Holds behaviour files runs) (Journal.record e : StateM Disk Unit)
      fun _ => Holds behaviour files runs :=
  .pure fun _ h => h

theorem ensures_now :
    Ensures (Holds behaviour files runs) (Clock.now : StateM Disk Duration)
      fun _ => Holds behaviour files runs :=
  fun _ h => h

theorem ensures_write (path text : String) :
    Ensures (Holds behaviour files runs) (write path text) fun r disk =>
      r = .ok () ∧ Holds behaviour (files.write path text) runs disk := by
  rintro disk ⟨rfl, rfl, rfl⟩
  exact ⟨rfl, rfl, rfl, rfl⟩

theorem ensures_run (command : Command) :
    Ensures (Holds behaviour files runs) (Commands.run command) fun answer disk =>
      answer = behaviour runs files command ∧
        Holds behaviour files (runs ++ [⟨command, answer⟩]) disk := by
  rintro disk ⟨rfl, rfl, rfl⟩
  exact ⟨rfl, rfl, rfl, rfl⟩

end Disk

end Sokoban
