/-
  HornPlan/CommandLine/Disk.lean
  ==============================
  **Files in memory, and carrying out scripts on them.**

  A disk holds files and directories under absolute paths, given as lists of names.
  A path is followed name by name, so each name but the last has to be that of a
  directory, and `..` leads up only from where there is one.
-/
import HornPlan.CommandLine.Script

namespace HornPlan.CommandLine

structure Disk where
  /-- The directory that relative paths start from. -/
  base : List String
  files : List (List String × String)
  /-- Directories that were made.  The working directory and those above it, above a
      file or above one of these are there without being named. -/
  directories : List (List String)
deriving Repr

/-- What a path leads to. -/
inductive Place where
  | file (text : String)
  | directory
  /-- Nothing, but in a directory. -/
  | vacant
deriving DecidableEq, Repr

/-- Why nothing can be done at a path. -/
inductive Obstacle where
  | missing
  /-- A file stands where a directory is needed. -/
  | notDirectory
  | isDirectory
  | tooLong
  /-- The path holds an octet of zero. -/
  | unusable
deriving DecidableEq, Repr

def Obstacle.message : Obstacle → String
  | .missing => "No such file or directory (os error 2)"
  | .notDirectory => "Not a directory (os error 20)"
  | .isDirectory => "Is a directory (os error 21)"
  | .tooLong => "File name too long (os error 36)"
  | .unusable => "file name contained an unexpected NUL byte"

namespace Disk

/-- The greatest length of a name and of a path, in octets. -/
def longestName : Nat := 255
def longestPath : Nat := 4095

/-! ### Following paths -/

/-- What is at a place with a known name. -/
def placeAt (d : Disk) (names : List String) : Place :=
  match d.files.lookup names with
  | some text => .file text
  | none =>
    if (d.base :: d.directories ++ d.files.map Prod.fst).any fun p => names.isPrefixOf p then
      .directory
    else .vacant

def follow (d : Disk) : (here : List String) → List String → Except Obstacle (List String × Place)
  | here, [] => .ok (here, d.placeAt here)
  | here, name :: rest =>
    match d.placeAt here with
    | .file _ => .error .notDirectory
    | .vacant => .error .missing
    | .directory =>
      if name = ".." then follow d here.dropLast rest
      else if longestName < name.utf8ByteSize then .error .tooLong
      else follow d (here ++ [name]) rest

def start (d : Disk) (path : String) : List String := if path.startsWith "/" then [] else d.base

/-- Fails for a path that cannot be followed at all. -/
def checkPath (path : String) : Except Obstacle Unit :=
  if path.contains '\x00' then .error .unusable
  else if path.isEmpty then .error .missing
  else if longestPath < path.utf8ByteSize then .error .tooLong
  else .ok ()

/-- Follows a path.  One that ends like that of a directory leads to no file. -/
def locate (d : Disk) (path : String) : Except Obstacle (List String × Place) := do
  checkPath path
  let (names, place) ← d.follow (d.start path) (Path.names path)
  match Path.ending path, place with
  | .nothing, _ | _, .directory => return (names, place)
  | _, .file _ => throw .notDirectory
  | _, .vacant => throw .missing

/-- The file that a path names, whether it is there or not.  A name with a slash
    behind it stands for a directory, also when there is none. -/
def target (d : Disk) (path : String) : Except Obstacle (List String) := do
  checkPath path
  let slashed := Path.ending path = .slash ∧ (Path.fileName? path).isSome
  match ← d.locate (if slashed then Path.directory path else path) with
  | (_, .directory) => throw .isDirectory
  | (names, .file _) => if slashed then throw .notDirectory else return names
  | (names, .vacant) => if slashed then throw .missing else return names

/-! ### Reading and writing -/

def read (d : Disk) (path : String) : Except Obstacle String := do
  match ← d.locate path with
  | (_, .file text) => return text
  | (_, .directory) => throw .isDirectory
  | (_, .vacant) => throw .missing

def put (d : Disk) (names : List String) (text : String) : Disk :=
  { d with files := (names, text) :: d.files.filter fun f => f.1 ≠ names }

def write (d : Disk) (path text : String) : Except Obstacle Disk := do
  return d.put (← d.target path) text

/-- Makes an empty file unless there is a file. -/
def touch (d : Disk) (path : String) : Except Obstacle Disk := do
  let names ← d.target path
  match d.placeAt names with
  | .file _ => return d
  | _ => return d.put names ""

/-- Makes the directories that names lead through, as far as they are missing. -/
def makeDirectories : Disk → (here : List String) → List String → Except Obstacle Disk
  | d, _, [] => .ok d
  | d, here, name :: rest =>
    if name = ".." then makeDirectories d here.dropLast rest
    else if longestName < name.utf8ByteSize then .error .tooLong
    else
      let here := here ++ [name]
      match d.placeAt here with
      | .file _ => .error .notDirectory
      | .directory => makeDirectories d here rest
      | .vacant => makeDirectories { d with directories := here :: d.directories } here rest

/-- Makes sure that a log file is there.  Only if that fails, the directories above
    it are made first. -/
def openLog (d : Disk) (path : String) : Except Obstacle Disk := do
  let directory := Path.directory path
  let file := directory ++ "/" ++ (Path.fileName? path).getD ""
  match d.touch file with
  | .ok d => return d
  | .error _ => (← d.makeDirectories (d.start directory) (Path.names directory)).touch file

/-! ### Carrying out -/

/-- What a script has led to. -/
structure Outcome where
  code : UInt32
  output : String
  complaints : String
  disk : Disk
deriving Repr

def perform (now : Stamp) : Script → Disk → Outcome
  | .exit code, d => ⟨code, "", "", d⟩
  | .print text next, d =>
    let o := perform now next d
    { o with output := text ++ o.output }
  | .complain text next, d =>
    let o := perform now next d
    { o with complaints := text ++ o.complaints }
  | .read path next, d => perform now (next ((d.read path).mapError Obstacle.message)) d
  | .write path text next, d =>
    match d.write path text with
    | .ok d => perform now (next (.ok ())) d
    | .error e => perform now (next (.error e.message)) d
  | .openLog path next, d =>
    match d.openLog path with
    | .ok d => perform now (next true) d
    | .error _ => perform now (next false) d
  | .stamp next, d => perform now (next now) d

end Disk

end HornPlan.CommandLine
