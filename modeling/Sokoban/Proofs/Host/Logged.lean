import Sokoban.Proofs.Host.Alike

/-!
# Hosts with a log

A host can be watched: what is asked of its files and its commands goes into a log, and otherwise it
answers as it does unwatched.
-/

namespace Sokoban

inductive Access where
  | makeDirectory (path : String)
  | createFile (path : String)
  | writeFile (path text : String)
  | readFile (path : String)
  | runCommand (command : Command)

/-- The files that are handed over: those that are read or written, and all that a command is told
of. Directories are no files. -/
def Access.files : Access → List String
  | makeDirectory _ => []
  | createFile path => [path]
  | writeFile path _ => [path]
  | readFile path => [path]
  | runCommand command => command.arguments

structure Logged (ε σ : Type) where
  host : σ
  log : List ε

namespace Logged

variable {ε σ α : Type}

def quietly (x : StateM σ α) : StateM (Logged ε σ) α := fun t =>
  ((x.run t.host).1, ⟨(x.run t.host).2, t.log⟩)

def logging (e : ε) (x : StateM σ α) : StateM (Logged ε σ) α := fun t =>
  ((x.run t.host).1, ⟨(x.run t.host).2, t.log ++ [e]⟩)

instance [Journal (StateM σ)] : Journal (StateM (Logged ε σ)) :=
  ⟨fun e => quietly (Journal.record e)⟩

instance [Clock (StateM σ)] : Clock (StateM (Logged ε σ)) := ⟨quietly Clock.now⟩

instance [Files (StateM σ)] : Files (StateM (Logged Access σ)) where
  createDirectories path := logging (.makeDirectory path) (Files.createDirectories path)
  createFile path := logging (.createFile path) (Files.createFile path)
  writeFile path text := logging (.writeFile path text) (Files.writeFile path text)
  readFile path := logging (.readFile path) (Files.readFile path)

instance [Commands (StateM σ)] : Commands (StateM (Logged Access σ)) :=
  ⟨fun command => logging (.runCommand command) (Commands.run command)⟩

def Over (P : ε → Prop) (s : σ) (t : Logged ε σ) : Prop := t.host = s ∧ ∀ e ∈ t.log, P e

variable {P : ε → Prop}

theorem alike_quietly (x : StateM σ α) : Alike (Over P) x (quietly x) := by
  rintro s ⟨_, log⟩ ⟨rfl, hlog⟩
  exact ⟨rfl, rfl, hlog⟩

theorem alike_logging {e : ε} (he : P e) (x : StateM σ α) :
    Alike (Over P) x (logging e x) := by
  rintro s ⟨_, log⟩ ⟨rfl, hlog⟩
  refine ⟨rfl, rfl, ?_⟩
  change ∀ e' ∈ log ++ [e], P e'
  rw [List.forall_mem_append, List.forall_mem_singleton]
  exact ⟨hlog, he⟩

theorem journalsAlike [Journal (StateM σ)] : JournalsAlike (Over P : σ → Logged ε σ → Prop) :=
  fun _ => alike_quietly _

theorem clocksAlike [Clock (StateM σ)] : ClocksAlike (Over P : σ → Logged ε σ → Prop) :=
  alike_quietly _

theorem alike_writeModel [Journal (StateM σ)] [Files (StateM σ)] (s : System) {path : String}
    {P : Access → Prop} (hcreate : P (.createFile path))
    (hwrite : ∀ text, P (.writeFile path text)) :
    Alike (Over P) (Session.writeModel s path : ExceptT Fault (StateM σ) Unit).run
      (Session.writeModel s path).run := by
  have hrecord : JournalsAlike (Over P : σ → Logged Access σ → Prop) := journalsAlike
  unfold Session.writeModel
  refine .bind_run (.during _ (.ask (alike_logging hcreate _))) fun _ => ?_
  refine .bind_run (.during _ (.ofResult _)) fun text => ?_
  have hask := Alike.ask (alike_logging (hwrite text) (Files.writeFile path text : StateM σ _))
  dsimp only
  split
  · exact .bind_run hask fun _ => hrecord.note _ _
  · exact .bind_run (hask.during _) fun _ => hrecord.note _ _

end Logged

end Sokoban
