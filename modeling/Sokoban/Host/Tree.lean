import Sokoban.Host.Effects

/-! # Directory trees in memory

A tree holds files and directories at places. A place is the list of names that lead to it from the
root of the tree; places outside begin with two dots, as often as one goes up, or with a slash, the
root of the machine. A path is walked name by name, from the root of the tree or of the machine, and
every name before the last must lead to a directory.
-/

namespace Sokoban

inductive Refusal where
  /-- There is nothing at the path, or at a place on the way. -/
  | missing
  | denied
  /-- Something is there already. -/
  | occupied
  /-- A place on the way is not a directory. -/
  | notDirectory
  /-- The path ends at a directory, where a file is asked for. -/
  | directory
  | noSpace
  | tooLong
  /-- The path has a character with code zero. -/
  | zeroCharacter
  deriving DecidableEq

namespace Refusal

def message : Refusal → String
  | missing => "No such file or directory (os error 2)"
  | denied => "Permission denied (os error 13)"
  | occupied => "File exists (os error 17)"
  | notDirectory => "Not a directory (os error 20)"
  | directory => "Is a directory (os error 21)"
  | noSpace => "No space left on device (os error 28)"
  | tooLong => "File name too long (os error 36)"
  | zeroCharacter => "file name contained an unexpected NUL byte"

def all : List Refusal :=
  [missing, denied, occupied, notDirectory, directory, noSpace, tooLong, zeroCharacter]

end Refusal

abbrev Place := List String

/-- Places of the machine that are not files of a tree. -/
inductive Device where
  /-- Forgets what is written. -/
  | null
  /-- Has no space for anything. -/
  | full
  /-- The input of the program, and what the program prints and complains. -/
  | input
  | output
  | complaints
  deriving DecidableEq

def Device.at? : Place → Option Device
  | ["/", "dev", "null"] => some null
  | ["/", "dev", "full"] => some full
  | ["/", "dev", "stdin"] => some input
  | ["/", "dev", "stdout"] => some output
  | ["/", "dev", "stderr"] => some complaints
  | _ => none

structure Tree where
  files : List (Place × ByteArray) := []
  directories : List Place := []

namespace Tree

/-- The tree with nothing in it, on a machine with the usual directories. -/
def onMachine : Tree where
  directories :=
    (["bin", "boot", "dev", "etc", "home", "lib", "media", "mnt", "opt", "root", "run", "sbin",
      "srv", "tmp", "usr", "var"].map fun name => ["/", name]) ++
    [["/", "dev", "shm"], ["/", "var", "tmp"]]

/-- The largest size of a name, in bytes. -/
def nameBound : Nat := 255

/-- From this size on, in bytes, a path is refused. -/
def pathBound : Nat := 4096

/-- The names of a path, a single dot for the place itself among them. -/
def segments (path : String) : List String := (path.splitOn "/").filter (· != "")

def origin (path : String) : Place := if Path.isAbsolute path then ["/"] else []

/-- Whether a place is the root of the tree or above it. -/
def isAscent (place : Place) : Bool := place.all (· == "..")

/-- The directory that holds a place; the root of the machine holds itself. -/
def above (place : Place) : Place :=
  if isAscent place then place ++ [".."]
  else if place.length = 1 ∧ place.head? = some "/" then place
  else place.dropLast

def isInside (place : Place) : Bool := place.head? != some ".." && place.head? != some "/"

def isDirectory (t : Tree) (place : Place) : Bool :=
  isAscent place || place == ["/"] || t.directories.contains place

def file? (t : Tree) (place : Place) : Option ByteArray := t.files.lookup place

def isOccupied (t : Tree) (place : Place) : Bool :=
  t.isDirectory place || (t.file? place).isSome || (Device.at? place).isSome

/-- The directory that a name leads to from another. -/
def step (t : Tree) (place : Place) (name : String) : Except Refusal Place :=
  if name = "." then .ok place
  else if name = ".." then .ok (above place)
  else if nameBound < name.utf8ByteSize then .error .tooLong
  else if t.isDirectory (place ++ [name]) then .ok (place ++ [name])
  else if t.isOccupied (place ++ [name]) then .error .notDirectory
  else .error .missing

def walk (t : Tree) (place : Place) (names : List String) : Except Refusal Place :=
  names.foldlM t.step place

/-- Refuses paths that the operating system does not even walk. -/
def checkPath (path : String) : Except Refusal Unit :=
  if path.toList.contains (Char.ofNat 0) then .error .zeroCharacter
  else if path.isEmpty then .error .missing
  else if pathBound ≤ path.utf8ByteSize then .error .tooLong
  else .ok ()

/-- The place of the file that a path names, whether the file is there or not. -/
def filePlace (t : Tree) (path : String) : Except Refusal Place := do
  checkPath path
  let names := segments path
  let directory ← t.walk (origin path) names.dropLast
  match names.getLast? with
  | none => .error .directory
  | some last =>
    if last = "." ∨ last = ".." then .error .directory
    else if nameBound < last.utf8ByteSize then .error .tooLong
    else if path.toList.getLast? = some '/' ∨ t.isDirectory (directory ++ [last]) then
      .error .directory
    else .ok (directory ++ [last])

def put (t : Tree) (place : Place) (bytes : ByteArray) : Tree :=
  if t.files.any fun f => f.1 == place then
    { t with files := t.files.map fun f => if f.1 == place then (place, bytes) else f }
  else { t with files := t.files ++ [(place, bytes)] }

/-- Makes the directory that names lead to; those above it must be there. -/
def makeDirectory (t : Tree) (start : Place) (names : List String) : Except Refusal Tree := do
  let directory ← t.walk start names.dropLast
  match names.getLast? with
  | none => .error .occupied
  | some last =>
    if last = "." ∨ last = ".." then .error .occupied
    else if nameBound < last.utf8ByteSize then .error .tooLong
    else if t.isOccupied (directory ++ [last]) then .error .occupied
    else .ok { t with directories := t.directories ++ [directory ++ [last]] }

def ensureDirectory (t : Tree) (start : Place) (names : List String) : Except Refusal Tree :=
  match t.makeDirectory start names with
  | .ok made => .ok made
  | .error refusal =>
    match t.walk start names with
    | .ok _ => .ok t
    | .error _ => .error refusal

/-- Makes the directory that names lead to and those above it, as far as they are missing. The names
are given last one first. -/
def ensureAll (t : Tree) (start : Place) : List String → Except Refusal Tree
  | [] => .ok t
  | name :: higher =>
    match t.ensureDirectory start (name :: higher).reverse with
    | .error .missing => do
      let made ← t.ensureAll start higher
      made.ensureDirectory start (name :: higher).reverse
    | answer => answer

/-- The names of a path without the single dots in it, except the one that it begins with. -/
def plainSegments (path : String) : List String :=
  match segments path with
  | [] => []
  | first :: rest =>
    let plain := rest.filter (· != ".")
    if first = "." ∧ Path.isAbsolute path then plain else first :: plain

/-- Makes a directory and those above it, as far as they are missing. A path that ends in a single
dot is not made, because what is above it does not have that dot. -/
def createDirectories (t : Tree) (path : String) : Except Refusal Tree := do
  if path.isEmpty then return t
  checkPath path
  match t.ensureDirectory (origin path) (segments path) with
  | .error .missing =>
    let made ← t.ensureAll (origin path) (plainSegments path).dropLast.reverse
    made.ensureDirectory (origin path) (segments path)
  | answer => answer

end Tree

end Sokoban
