/-
  HornPlan/Main.lean
  ==================
  **The program.**

  Carries out the script of its command line: this is the only place where files
  are read and written and where the clock is asked.

  Specification, section E.9: the program `masplan`.
-/
import HornPlan.CommandLine.Script
import Std.Time.Format

namespace HornPlan

open CommandLine (Script)

/-! ### The world -/

def failureText : IO.Error → String
  | .noFileOrDirectory _ code details | .permissionDenied _ code details
  | .inappropriateType _ code details | .invalidArgument _ code details =>
    details ++ " (os error " ++ toString code ++ ")"
  | e => toString e

def readFile (path : String) : IO (Except String String) := do
  try
    let bytes ← IO.FS.readBinFile path
    match String.fromUTF8? bytes with
    | some text => return .ok text
    | none => return .error "stream did not contain valid UTF-8"
  catch e => return .error (failureText e)

def writeFile (path text : String) : IO (Except String Unit) := do
  try
    IO.FS.writeFile path text
    return .ok ()
  catch e => return .error (failureText e)

def openLog (path : String) : IO Bool := do
  try
    IO.FS.createDirAll (Path.directory path)
    let file := Path.directory path ++ "/" ++ (Path.fileName? path).getD ""
    let _ ← IO.FS.Handle.mk file .append
    return true
  catch _ => return false

/-- A random id in the usual form of five groups. -/
def newId : IO String := do
  let bytes ← IO.getRandomBytes 16
  let hex (b : UInt8) : List Char := [Nat.digitChar (b.toNat / 16), Nat.digitChar (b.toNat % 16)]
  let marked := bytes.toList.zipIdx.map fun (b, i) =>
    if i = 6 then b % 16 + 0x40 else if i = 8 then b % 64 + 0x80 else b
  let digits := marked.zipIdx.flatMap fun (b, i) =>
    if i ∈ [4, 6, 8, 10] then '-' :: hex b else hex b
  return String.ofList digits

def now : IO String := do
  let stamp ← Std.Time.Timestamp.now
  let time := Std.Time.DateTime.ofTimestamp stamp Std.Time.TimeZone.ZoneRules.UTC
  return time.format "uuuu-MM-dd'T'HH:mm:ss.SSSSSSSSS'Z'"

def newStamp : IO Stamp := do
  return { runId := ← newId, started := ← now, ended := ← now, totalWallMs := 0 }

def configHome : IO (Option String) := do
  match ← IO.getEnv "XDG_CONFIG_HOME" with
  | some path => if path.startsWith "/" then return some path else ofHome
  | none => ofHome
where
  ofHome : IO (Option String) := do return (← IO.getEnv "HOME").map (· ++ "/.config")

/-! ### Carrying out -/

def perform : Script → IO UInt32
  | .exit code => return code
  | .print text next => do
    IO.print text
    perform next
  | .complain text next => do
    IO.eprint text
    perform next
  | .read path next => do perform (next (← readFile path))
  | .write path text next => do perform (next (← writeFile path text))
  | .openLog path next => do perform (next (← openLog path))
  | .stamp next => do perform (next (← newStamp))

end HornPlan

def main (args : List String) : IO UInt32 := do
  let home ← HornPlan.configHome
  HornPlan.perform (HornPlan.CommandLine.script home (HornPlan.CommandLine.request args))
