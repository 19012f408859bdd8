/-
  HornPlan/CommandLine/Script.lean
  ================================
  **What a command does, step by step.**

  A `Script` says what a command asks of the world around it: files to be read and
  written, the time, and texts for the two output streams.  It does nothing by
  itself.  The program carries a script out; `Disk.perform` carries it out on
  files that are held in memory.

  Specification, sections D and E.9: the subcommands.
-/
import HornPlan.CommandLine.Arguments
import HornPlan.Config
import HornPlan.Demo
import HornPlan.Query.Document

namespace HornPlan.CommandLine

/-- Steps of a command, each with what follows it. -/
inductive Script where
  | exit (code : UInt32)
  | print (text : String) (next : Script)
  | complain (text : String) (next : Script)
  /-- Reads a file, or is told why it cannot be read. -/
  | read (path : String) (next : Except String String → Script)
  /-- Writes a file, or is told why it cannot be written. -/
  | write (path text : String) (next : Except String Unit → Script)
  /-- Makes sure that a log file is there, with the directories above it. -/
  | openLog (path : String) (next : Bool → Script)
  /-- Asks for the time and for a new id. -/
  | stamp (next : Stamp → Script)

/-! ### Errors -/

/-- A failure and the failures underneath it, each with the next one. -/
structure Complaint where
  text : String
  causes : List String
deriving DecidableEq, Repr

namespace Complaint

def ofError (e : Error) : Complaint := ⟨e.message, e.source.toList⟩

/-- An error as the cause of a failure. -/
def because (text : String) (e : Error) : Complaint := ⟨text, e.message :: e.source.toList⟩

/-- A cause; all its lines but the first are set in by `margin`. -/
def indented (start margin text : String) : String :=
  start ++ ("\n" ++ margin).intercalate (text.splitOn "\n")

def numbered : (n : Nat) → List String → List String
  | _, [] => []
  | n, c :: rest =>
    indented (View.leftPadded 5 (toString n) ++ ": ") "       " c :: numbered (n + 1) rest

/-- A failure as it is reported.  Several causes have numbers. -/
def render (c : Complaint) : String :=
  "Error: " ++ c.text ++
    (match c.causes with
      | [] => ""
      | [cause] => "\n\nCaused by:\n" ++ indented "    " "    " cause
      | causes => "\n\nCaused by:\n" ++ "\n".intercalate (numbered 0 causes)) ++ "\n"

end Complaint

namespace Script

def fail (c : Complaint) : Script := .complain c.render (.exit 1)

def finish (text : String) : Script := .print text (.exit 0)

def orFail {α : Type} (result : Except Error α) (next : α → Script) : Script :=
  match result with
  | .ok a => next a
  | .error e => fail (.ofError e)

end Script

/-! ### Commands -/

def programName : String := "masplan"

def version : String := "0.5.0"

def usage : String :=
  "Usage: " ++ programName ++ " [OPTIONS] <COMMAND>\n\n" ++
  "Commands:\n" ++
  "  compile <QUERY>               print the clause program of a query\n" ++
  "  solve <QUERY>                 print the plan of a query\n" ++
  "  explain <QUERY>               print the proof of every output\n" ++
  "  run <QUERY> [--report <PATH>] execute the plan of a query\n" ++
  "  catalog                       list the types, tasks and descriptors\n" ++
  "  config [--dump]               show the configuration\n\n" ++
  "Options:\n" ++
  "  --config <PATH>       configuration file\n" ++
  "  --log-file <PATH>     log file\n" ++
  "  -f, --format <FORMAT> text, yaml or json\n" ++
  "  -h, --help            print help\n" ++
  "  -V, --version         print the version\n"

/-- The configuration file in the directory where configurations are kept. -/
def defaultPath (home : Option String) : Option String :=
  home.map (· ++ "/" ++ programName ++ "/config.toml")

/-- Reads the configuration at a path, if there is one. -/
def withConfig (path : Option String) (next : Config → Script) : Script :=
  match path with
  | none => next .standard
  | some path => .read path fun content =>
    match content with
    | .ok text => next (.ofText text)
    | .error _ => next .standard

/-- Opens the log file, if one is asked for. -/
def withLog (path : Option String) (next : Script) : Script :=
  match path with
  | none => next
  | some path =>
    match Path.fileName? path with
    | none => .fail ⟨"--log-file " ++ path ++ " has no file name", []⟩
    | some _ => .openLog path fun opened => if opened then next else .exit 101

def withQuery (path : String) (next : Query → Script) : Script :=
  .read path fun content =>
    match Query.ofFile path content with
    | .ok q => next q
    | .error e => .fail (.because ("loading query " ++ path) e)

/-- The proofs of the outputs, each under its output. -/
def explanation (derivations : List (Tuple × Derivation)) : String :=
  String.join (derivations.map fun d => "# " ++ d.1.text ++ "\n" ++ d.2.text)

/-- Reports on a run, then shows its result. -/
def concludeRun (f : Format) (report : Report) (result : Except Error Resource) : Script :=
  .complain (report.summary ++ "\n") (.orFail result fun r => .finish (View.resource f r))

def runQuery (p : Planner) (f : Format) (path : String) (reportPath : Option String) (q : Query) :
    Script :=
  .orFail (p.solve q) fun s => .stamp fun stamp =>
    let (report, result) :=
      Report.run stamp ((Path.stem? path).getD "query") s.plan s.database.seed
    match reportPath with
    | none => concludeRun f report result
    | some target => .write target report.yaml fun written =>
      match written with
      | .ok () => concludeRun f report result
      | .error reason => .fail ⟨"writing report to " ++ target, [reason]⟩

def commandScript (home : Option String) (c : Config) (f : Format) (p : Planner) :
    Command → Script
  | .compile path => withQuery path fun q =>
    .orFail (p.compile q) fun db => .finish (View.program f db)
  | .solve path => withQuery path fun q =>
    .orFail (p.solve q) fun s => .finish (View.plan f s.plan)
  | .explain path => withQuery path fun q =>
    .orFail (p.compile q >>= p.derive) fun ds => .finish (explanation ds)
  | .run path report => withQuery path (runQuery p f path report)
  | .catalog => .finish (View.catalog p.registry p.catalog)
  | .config true => .finish c.toml
  | .config false =>
    .finish ("config path: " ++ (defaultPath home).getD "<none>" ++
      "\nuse --dump to print the effective config\n")

/-- Carries out a request; `home` is the directory where configurations are kept. -/
def script (home : Option String) : Request → Script
  | .help => .finish usage
  | .version => .finish (programName ++ " " ++ version ++ "\n")
  | .misuse => .complain usage (.exit 2)
  | .invoke i =>
    withConfig (i.config.or (defaultPath home)) fun config =>
      withLog i.logFile
        (.orFail (Demo.planner config.maxDepth) fun p =>
          commandScript home config (i.format.getD config.format) p i.command)

end HornPlan.CommandLine
