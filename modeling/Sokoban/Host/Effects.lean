import Sokoban.Check.Duration
import Sokoban.Fault

/-! # What a host provides

Everything that reaches beyond a computation goes through a host: a journal, a clock, files,
commands and a console. Computations are written for any monad that has these, so that they run on
a real machine as well as in memory. A host that refuses something says why in its own words.
-/

namespace Sokoban.Path

def isAbsolute (path : String) : Bool := path.toList.head? == some '/'

/-- A path seen from a directory. An absolute path stays as it is; otherwise a slash is put in
between, unless the directory is empty or ends in one. -/
def join (directory path : String) : String :=
  if isAbsolute path then path
  else if directory.isEmpty || directory.toList.getLast? == some '/' then directory ++ path
  else directory ++ "/" ++ path

end Sokoban.Path

namespace Sokoban

inductive Level where
  | debug
  | info
  | warn
  deriving DecidableEq

namespace Level

def text : Level → String
  | debug => "DEBUG"
  | info => "INFO"
  | warn => "WARN"

/-- The rank of a level; what matters more ranks higher. -/
def rank : Level → Nat
  | debug => 0
  | info => 1
  | warn => 2

end Level

structure Entry where
  level : Level
  message : String
  deriving DecidableEq

class Journal (m : Type → Type) where
  record : Entry → m Unit

/-- Tells the time that has gone by since some moment. -/
class Clock (m : Type → Type) where
  now : m Duration

class Files (m : Type → Type) where
  /-- Makes a directory and those above it, as far as they are missing. -/
  createDirectories : String → m (Except String Unit)
  /-- Makes an empty file, or empties it. -/
  createFile : String → m (Except String Unit)
  /-- Makes a file with a text, in place of what it held. -/
  writeFile : String → String → m (Except String Unit)
  /-- The bytes of a file. -/
  readFile : String → m (Except String ByteArray)

/-- A command with its arguments, and what is fed to its input. -/
structure Command where
  program : String
  arguments : List String
  input : String
  deriving DecidableEq

inductive ExitStatus where
  | code (n : Nat)
  | signal (n : Nat)
  deriving DecidableEq

namespace ExitStatus

def signalName? : Nat → Option String
  | 1 => "SIGHUP"
  | 2 => "SIGINT"
  | 3 => "SIGQUIT"
  | 4 => "SIGILL"
  | 5 => "SIGTRAP"
  | 6 => "SIGABRT"
  | 7 => "SIGBUS"
  | 8 => "SIGFPE"
  | 9 => "SIGKILL"
  | 10 => "SIGUSR1"
  | 11 => "SIGSEGV"
  | 12 => "SIGUSR2"
  | 13 => "SIGPIPE"
  | 14 => "SIGALRM"
  | 15 => "SIGTERM"
  | 16 => "SIGSTKFLT"
  | 17 => "SIGCHLD"
  | 18 => "SIGCONT"
  | 19 => "SIGSTOP"
  | 20 => "SIGTSTP"
  | 21 => "SIGTTIN"
  | 22 => "SIGTTOU"
  | 23 => "SIGURG"
  | 24 => "SIGXCPU"
  | 25 => "SIGXFSZ"
  | 26 => "SIGVTALRM"
  | 27 => "SIGPROF"
  | 28 => "SIGWINCH"
  | 29 => "SIGIO"
  | 30 => "SIGPWR"
  | 31 => "SIGSYS"
  | _ => none

/-- A command succeeded if it ended by itself with code zero. -/
def isSuccess : ExitStatus → Bool
  | code n => n == 0
  | signal _ => false

def text : ExitStatus → String
  | code n => "exit status: " ++ toString n
  | signal n =>
    "signal: " ++ toString n ++
      match signalName? n with
      | some name => " (" ++ name ++ ")"
      | none => ""

end ExitStatus

structure CommandResult where
  status : ExitStatus
  output : ByteArray
  complaint : ByteArray

/-- Why a command did not come to its end. -/
inductive CommandRefusal where
  | notStarted (message : String)
  | inputNotSent (message : String)
  | notAwaited (message : String)

class Commands (m : Type → Type) where
  run : Command → m (Except CommandRefusal CommandResult)

class Console (m : Type → Type) where
  readInput : m (Except String ByteArray)
  print : String → m Unit
  complain : String → m Unit

section Computations

variable {m : Type → Type} [Monad m] {α : Type}

def ofResult (r : Result α) : ExceptT Fault m α := ExceptT.mk (pure r)

/-- The result of a computation, which then has no fault of its own. -/
def resultOf (x : ExceptT Fault m α) : ExceptT Fault m (Result α) := ExceptT.lift x.run

/-- A computation whose errors name an activity first. -/
def whileDoing (a : Activity) (x : ExceptT Fault m α) : ExceptT Fault m α :=
  x.adapt (Fault.during a)

/-- A service of the operating system, whose refusal is an error. -/
def ask (x : m (Except String α)) : ExceptT Fault m α :=
  ExceptT.mk do
    match ← x with
    | .ok a => return .ok a
    | .error message => return Result.fail (.system message)

def note [Journal m] (level : Level) (message : String) : ExceptT Fault m Unit :=
  ExceptT.lift (Journal.record ⟨level, message⟩)

end Computations

end Sokoban
