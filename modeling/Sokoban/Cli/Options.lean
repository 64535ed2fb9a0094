import Sokoban.Check.External
import Sokoban.Word

/-! # Command lines

A command line is a task with options before and after its name. Options are given by long names,
`--name value` or `--name=value`, some of them also by a letter, and letters can be put together.
After `--` every word is an argument. Most options belong to every task, and one given after the
task's name counts more than one before it. An option given twice on the same side is refused, as is
everything that is not known; only `-v` can be repeated.

What is not given is taken from the settings of a check, which have a value for everything.
-/

namespace Sokoban

structure Settings where
  /-- The bound of the step counter. -/
  limit : Nat := 60
  /-- The command that runs the model checker. -/
  command : String := "nuXmv"
  engine : Engine := .bdd
  /-- The directory of the files. -/
  directory : String := "."
  /-- The stem of the names of the files. -/
  stem : String := "sokoban"
  deriving DecidableEq

/-- The length up to which counterexamples are looked for, if nothing else is said. -/
def Settings.defaultDepth : Nat := 30

def Settings.checker (s : Settings) : ExternalChecker := ⟨s.command, s.engine, s.directory⟩

end Sokoban

namespace Sokoban.Cli

inductive Task where
  /-- Print or write the model of a board, or of one of its pairs. -/
  | compile (output : Option String) (pair : Option Nat)
  /-- Check a board. -/
  | check
  /-- Check a board with both engines. -/
  | compare
  /-- Check a board pair by pair. -/
  | decompose (parallel : Bool)
  deriving DecidableEq

structure Invocation where
  limit : Nat
  command : String
  bounded : Bool
  depth : Nat
  directory : String
  stem : String
  verbosity : Nat
  quiet : Bool
  /-- The file of the board. -/
  board : Option String
  task : Task
  deriving DecidableEq

inductive TaskName where
  | compile
  | check
  | compare
  | decompose
  deriving DecidableEq

namespace TaskName

def word : TaskName → String
  | compile => "compile"
  | check => "check"
  | compare => "compare"
  | decompose => "decompose"

def all : List TaskName := [compile, check, compare, decompose]

def ofWord? (word : String) : Option TaskName := all.find? fun name => name.word == word

end TaskName

/-- The options and arguments on one side of the task's name. -/
structure Given where
  steps : Option Nat := none
  command : Option String := none
  bounded : Option Bool := none
  depth : Option Nat := none
  directory : Option String := none
  stem : Option String := none
  verbosity : Nat := 0
  quiet : Bool := false
  output : Option String := none
  pair : Option Nat := none
  parallel : Bool := false
  board : Option String := none

inductive Name where
  | steps
  | command
  | engine
  | depth
  | directory
  | stem
  | verbose
  | quiet
  | output
  | pair
  | parallel
  deriving DecidableEq

namespace Name

def word : Name → String
  | steps => "steps"
  | command => "nuxmv"
  | engine => "engine"
  | depth => "depth"
  | directory => "dir"
  | stem => "stem"
  | verbose => "verbose"
  | quiet => "quiet"
  | output => "output"
  | pair => "pair"
  | parallel => "parallel"

def all : List Name :=
  [steps, command, engine, depth, directory, stem, verbose, quiet, output, pair, parallel]

def ofLong? (word : String) : Option Name := all.find? fun name => name.word == word

def ofLetter? (letter : Char) : Option Name :=
  if letter = 'v' then some verbose
  else if letter = 'q' then some quiet
  else if letter = 'o' then some output
  else none

def hasValue : Name → Bool
  | verbose | quiet | parallel => false
  | _ => true

/-- Whether an option may stand at a place: before the task's name, or after it. -/
def isAllowed (place : Option TaskName) : Name → Bool
  | output | pair => place == some .compile
  | parallel => place == some .decompose
  | _ => true

end Name

/-- A number in decimal digits, which may begin with a plus sign, if it fits into a word. -/
def number? (text : String) : Option Nat :=
  let digits :=
    match text.toList with
    | '+' :: rest => rest
    | all => all
  if digits.isEmpty || !digits.all Char.isDigit then none
  else
    let n := digits.foldl (fun n c => n * 10 + (c.toNat - '0'.toNat)) 0
    if n < Word.bound then some n else none

def path? (text : String) : Option String := if text.isEmpty then none else some text

/-- Fills in what was not given yet. -/
def once {α : Type} (old new : Option α) : Option (Option α) :=
  match old, new with
  | none, some a => some (some a)
  | _, _ => none

namespace Given

def setValue (g : Given) (name : Name) (value : String) : Option Given :=
  match name with
  | .steps => (once g.steps (number? value)).map fun v => { g with steps := v }
  | .command => (once g.command (some value)).map fun v => { g with command := v }
  | .engine =>
    let bounded :=
      if value = "bdd" then some false else if value = "bmc" then some true else none
    (once g.bounded bounded).map fun v => { g with bounded := v }
  | .depth => (once g.depth (number? value)).map fun v => { g with depth := v }
  | .directory => (once g.directory (path? value)).map fun v => { g with directory := v }
  | .stem => (once g.stem (some value)).map fun v => { g with stem := v }
  | .output => (once g.output (path? value)).map fun v => { g with output := v }
  | .pair => (once g.pair (number? value)).map fun v => { g with pair := v }
  | .verbose | .quiet | .parallel => none

def setFlag (g : Given) (name : Name) : Option Given :=
  match name with
  | .verbose => some { g with verbosity := g.verbosity + 1 }
  | .quiet => if g.quiet then none else some { g with quiet := true }
  | .parallel => if g.parallel then none else some { g with parallel := true }
  | _ => none

def setArgument (g : Given) (word : String) : Option Given :=
  (once g.board (path? word)).map fun v => { g with board := v }

end Given

inductive Word where
  /-- Everything that follows is an argument. -/
  | separator
  /-- An option, with what stands after its equals sign. -/
  | long (name : String) (value : Option String)
  /-- Options by letters. -/
  | letters (letters : List Char)
  | plain

/-- What a word asks for. A single dash is an argument. -/
def Word.ofString (word : String) : Word :=
  match word.toList with
  | ['-', '-'] => separator
  | '-' :: '-' :: rest =>
    let name := String.ofList (rest.takeWhile (· != '='))
    match rest.dropWhile (· != '=') with
    | [] => long name none
    | _ :: value => long name (some (String.ofList value))
  | '-' :: c :: rest => letters (c :: rest)
  | _ => plain

/-- Enters options by letters. The first option that has a value takes the other letters as its
value, without an equals sign before it; if none are left, the value is still to come. -/
def readLetters (place : Option TaskName) (g : Given) : List Char → Option (Given × Option Name)
  | [] => some (g, none)
  | letter :: rest => do
    let name ← Name.ofLetter? letter
    guard (name.isAllowed place)
    if name.hasValue then
      match rest with
      | [] => return (g, some name)
      | '=' :: value => return (← g.setValue name (String.ofList value), none)
      | value => return (← g.setValue name (String.ofList value), none)
    else
      readLetters place (← g.setFlag name) rest

/-- Enters an option by its long name; its value may still be to come. -/
def readLong (place : Option TaskName) (g : Given) (name : String) (value : Option String) :
    Option (Given × Option Name) := do
  let name ← Name.ofLong? name
  guard (name.isAllowed place)
  match value with
  | some value => guard name.hasValue; return (← g.setValue name value, none)
  | none =>
    if name.hasValue then return (g, some name) else return (← g.setFlag name, none)

/-- Reads the words on one side of the task's name. Before the name the first plain word is that
name; it is given back with the words after it. -/
def readWords (place : Option TaskName) (pending : Option Name) (g : Given) :
    List String → Option (Given × Option (TaskName × List String))
  | [] => if pending.isSome then none else some (g, none)
  | word :: rest =>
    match pending, Word.ofString word with
    | some name, .plain => do readWords place none (← g.setValue name word) rest
    | some _, _ => none
    | none, .separator => do
      guard place.isSome
      return (← rest.foldlM Given.setArgument g, none)
    | none, .long name value => do
      let (g, pending) ← readLong place g name value
      readWords place pending g rest
    | none, .letters letters => do
      let (g, pending) ← readLetters place g letters
      readWords place pending g rest
    | none, .plain =>
      if place.isSome then do readWords place none (← g.setArgument word) rest
      else do return (g, some (← TaskName.ofWord? word, rest))

namespace Invocation

def taskOf (name : TaskName) (g : Given) : Task :=
  match name with
  | .compile => .compile g.output g.pair
  | .check => .check
  | .compare => .compare
  | .decompose => .decompose g.parallel

def parse (words : List String) : Option Invocation := do
  let (before, task) ← readWords none none {} words
  let (name, rest) ← task
  let (after, _) ← readWords (some name) none {} rest
  let defaults : Settings := {}
  return {
    limit := (after.steps <|> before.steps).getD defaults.limit
    command := (after.command <|> before.command).getD defaults.command
    bounded := (after.bounded <|> before.bounded).getD false
    depth := (after.depth <|> before.depth).getD Settings.defaultDepth
    directory := (after.directory <|> before.directory).getD defaults.directory
    stem := (after.stem <|> before.stem).getD defaults.stem
    verbosity := if after.verbosity = 0 then before.verbosity else after.verbosity
    quiet := after.quiet || before.quiet
    board := after.board
    task := taskOf name after }

def settings (i : Invocation) : Settings where
  limit := i.limit
  command := i.command
  engine := if i.bounded then .bmc i.depth else .bdd
  directory := i.directory
  stem := i.stem

/-- The least level of the entries of the journal that are shown. -/
def threshold (i : Invocation) : Level :=
  if i.quiet then .warn else if i.verbosity = 0 then .info else .debug

end Invocation

end Sokoban.Cli
