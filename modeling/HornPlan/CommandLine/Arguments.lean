/-
  HornPlan/CommandLine/Arguments.lean
  ===================================
  **What the words of a command line ask for.**

  A command line has two levels: options for every command, then the name of the
  command, then its own options and operands; the options for every command may
  stand there as well, and count for more.  At one level an option is given at
  most once.  The words are read from left to right, and the first that asks for
  help or for the version, or that does not fit, decides.

  Specification, section E.9: the subcommands and their options.
-/
import HornPlan.View

namespace HornPlan.CommandLine

/-- What to do. -/
inductive Command where
  /-- Print the clauses of a query. -/
  | compile (query : String)
  /-- Print the plan of a query. -/
  | solve (query : String)
  /-- Print the proofs of the outputs of a query. -/
  | explain (query : String)
  /-- Run the plan of a query, and write a report if there is a path for it. -/
  | run (query : String) (report : Option String)
  /-- Print the types, tasks and descriptors of the demonstration. -/
  | catalog
  /-- Print the configuration (`dump`), or where it is looked for. -/
  | config (dump : Bool)
deriving DecidableEq, Repr

/-- A command with the options that every command has. -/
structure Invocation where
  command : Command
  config : Option String
  logFile : Option String
  format : Option Format
deriving DecidableEq, Repr

/-- What a command line asks for. -/
inductive Request where
  | help
  | version
  /-- It does not fit together. -/
  | misuse
  | invoke (i : Invocation)
deriving DecidableEq, Repr

/-! ### The words of one level -/

/-- What may stand at a level.  The first operand ends a level that takes none. -/
structure Level where
  options : List String
  flags : List String
  operands : Option Nat

/-- What stands at a level: options with their values, flags, and operands. -/
structure Given where
  options : List (String × String)
  flags : List String
  operands : List String

def Given.nothing : Given := ⟨[], [], []⟩

def commonOptions : List String := ["config", "log-file", "format"]

/-- What a single word is. -/
inductive Word where
  /-- Two hyphens: only operands follow. -/
  | terminator
  | flag (name : String)
  /-- An option; its value is the next word if it is not part of this one. -/
  | option (name : String) (value : Option String)
  | operand (s : String)
  | unknown
deriving DecidableEq, Repr

def longWord (l : Level) (body : List Char) : Word :=
  let name := String.ofList (body.takeWhile (· ≠ '='))
  let value := (body.dropWhile (· ≠ '=')).tail?.map String.ofList
  if name ∈ l.options then .option name value
  else if name ∈ l.flags ∧ value.isNone then .flag name
  else .unknown

/-- The value of an option of one letter, behind that letter. -/
def attached : List Char → Option String
  | [] => none
  | '=' :: value => some (String.ofList value)
  | value => some (String.ofList value)

def shortWord (l : Level) : List Char → Word
  | 'f' :: value => .option "format" (attached value)
  | 'h' :: _ => .flag "help"
  | 'V' :: _ => if "version" ∈ l.flags then .flag "version" else .unknown
  | _ => .unknown

/-- A word at some level.  A single hyphen is an operand. -/
def word (l : Level) (s : String) : Word :=
  match s.toList with
  | ['-', '-'] => .terminator
  | '-' :: '-' :: body => longWord l body
  | '-' :: c :: body => shortWord l (c :: body)
  | _ => .operand s

/-- Does a value fit an option?  Paths are not empty. -/
def fits (option value : String) : Bool :=
  if option = "format" then (Format.ofName? value).isSome else value ≠ ""

namespace Given

/-- Adds an option that has not been given yet. -/
def addOption (g : Given) (name value : String) : Except Request Given :=
  if (g.options.lookup name).isSome ∨ !fits name value then .error .misuse
  else .ok { g with options := (name, value) :: g.options }

/-- Adds a flag that has not been given yet; two flags are answered at once. -/
def addFlag (g : Given) (name : String) : Except Request Given :=
  if name = "help" then .error .help
  else if name = "version" then .error .version
  else if name ∈ g.flags then .error .misuse
  else .ok { g with flags := name :: g.flags }

def addOperands (g : Given) (limit : Nat) (operands : List String) : Except Request Given :=
  if limit < g.operands.length + operands.length ∨ "" ∈ operands then .error .misuse
  else .ok { g with operands := g.operands ++ operands }

/-- Reads the words of a level, and gives what stands there and the words behind. -/
def read (l : Level) : Given → List String → Except Request (Given × List String)
  | g, [] => .ok (g, [])
  | g, s :: rest =>
    match word l s with
    | .unknown => .error .misuse
    | .flag name => do read l (← g.addFlag name) rest
    | .option name (some value) => do read l (← g.addOption name value) rest
    | .option name none =>
      match rest with
      | [] => .error .misuse
      | value :: rest =>
        match word l value with
        | .operand value => do read l (← g.addOption name value) rest
        | _ => .error .misuse
    | .operand s =>
      match l.operands with
      | none => .ok (g, s :: rest)
      | some limit => do read l (← g.addOperands limit [s]) rest
    | .terminator =>
      match l.operands with
      | none => .error .misuse
      | some limit => do return (← g.addOperands limit rest, [])

end Given

/-! ### Whole command lines -/

/-- The level before the name of the command. -/
def outerLevel : Level := ⟨commonOptions, ["help", "version"], none⟩

/-- The level behind the name of a command. -/
def levelOf? (command : String) : Option Level :=
  if command ∈ ["compile", "solve", "explain"] then some ⟨commonOptions, ["help"], some 1⟩
  else if command = "run" then some ⟨"report" :: commonOptions, ["help"], some 1⟩
  else if command = "catalog" then some ⟨commonOptions, ["help"], some 0⟩
  else if command = "config" then some ⟨commonOptions, ["help", "dump"], some 0⟩
  else none

/-- The command with a name and what is given for it. -/
def commandOf? (name : String) (g : Given) : Option Command :=
  match name, g.operands with
  | "compile", [query] => some (.compile query)
  | "solve", [query] => some (.solve query)
  | "explain", [query] => some (.explain query)
  | "run", [query] => some (.run query (g.options.lookup "report"))
  | "catalog", _ => some .catalog
  | "config", _ => some (.config ("dump" ∈ g.flags))
  | _, _ => none

/-- An option that may be given at both levels; the inner one counts for more. -/
def common (outer inner : Given) (name : String) : Option String :=
  (inner.options.lookup name).or (outer.options.lookup name)

/-- Asks for help about the program or about one command. -/
def helpRequest : List String → Request
  | [] => .help
  | [name] => if (levelOf? name).isSome ∨ name = "help" then .help else .misuse
  | _ => .misuse

def read (words : List String) : Except Request Invocation := do
  match ← Given.read outerLevel .nothing words with
  | (_, []) => .error .misuse
  | (outer, name :: rest) =>
    if name = "help" then .error (helpRequest rest)
    else
      match levelOf? name with
      | none => .error .misuse
      | some level => do
        let (inner, _) ← Given.read level .nothing rest
        match commandOf? name inner with
        | none => .error .misuse
        | some command =>
          return {
            command
            config := common outer inner "config"
            logFile := common outer inner "log-file"
            format := (common outer inner "format").bind Format.ofName? }

def request (words : List String) : Request :=
  match read words with
  | .ok i => .invoke i
  | .error r => r

end HornPlan.CommandLine
