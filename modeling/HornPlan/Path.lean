/-
  HornPlan/Path.lean
  ==================
  **Names of files.**

  A path is a text of names with slashes between them.  Empty names and single
  full stops in it mean nothing; two full stops lead up.

  Specification, sections D and E.10: the names of documents and of the configuration
  file.
-/

namespace HornPlan.Path

/-- The parts of a path between its slashes. -/
def parts (path : String) : List String := (path.toList.splitOn '/').map String.ofList

/-- Does a part of a path mean nothing? -/
def isIdle (part : String) : Bool := part = "" || part = "."

def names (path : String) : List String := (parts path).filter fun p => !isIdle p

/-- What follows the last name of a path. -/
inductive Ending where
  | nothing
  /-- Slashes only: the path is that of a directory. -/
  | slash
  /-- A full stop: the path leads into the directory. -/
  | stop
deriving DecidableEq, Repr

def ending (path : String) : Ending :=
  let idle := (parts path).reverse.takeWhile isIdle
  if "." ∈ idle then .stop else if idle.isEmpty then .nothing else .slash

/-- The path without its last name: the directory that the name stands in. -/
def directory (path : String) : String :=
  let above := (((parts path).reverse.dropWhile isIdle).drop 1).dropWhile isIdle
  if !above.isEmpty then "/".intercalate above.reverse
  else if path.startsWith "/" then "/"
  else "."

/-- The name of the file that a path leads to. -/
def fileName? (path : String) : Option String :=
  (names path).getLast?.filter (· ≠ "..")

/-- Splits a name at its last full stop, unless it has none behind its first
    character. -/
def splitName (name : String) : String × Option String :=
  let after := name.toList.reverse.takeWhile (· ≠ '.')
  let before := (name.toList.reverse.drop (after.length + 1)).reverse
  if before.isEmpty then (name, none)
  else (String.ofList before, some (String.ofList after.reverse))

/-- The name of the file without its last extension. -/
def stem? (path : String) : Option String := (fileName? path).map fun n => (splitName n).1

def extension? (path : String) : Option String := (fileName? path).bind fun n => (splitName n).2

end HornPlan.Path
