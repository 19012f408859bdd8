/-
  HornPlan/View.lean
  ==================
  **What is shown, and in which format.**

  A thing is shown as text for people, or as YAML or JSON of its value tree.

  Specification, section E.9: what the commands print.
-/
import HornPlan.Json.Text
import HornPlan.Yaml.Layout
import HornPlan.Database
import HornPlan.Plan
import HornPlan.Registry

namespace HornPlan

inductive Format where
  | text
  | yaml
  | json
deriving DecidableEq, Repr, Inhabited

namespace Format

def all : List Format := [.text, .yaml, .json]

def name : Format → String
  | text => "text"
  | yaml => "yaml"
  | json => "json"

def ofName? (s : String) : Option Format := all.find? fun f => f.name = s

/-- Writes a tree in a format, given the text for people. -/
def write (f : Format) (tree : Value) (text : String) : String :=
  match f with
  | .text => text
  | .yaml => Yaml.write tree
  | .json => Json.pretty 0 tree ++ "\n"

end Format

namespace View

/-! ### Clauses, plans, values -/

/-- A database: a logic program, or the list of its clauses. -/
def program (f : Format) (db : Database) : String :=
  f.write (.texts (db.clauses.map Clause.text)) db.program

def stepValue (s : Step) : Value :=
  .map ([("task", .text s.name)] ++
    (match s.kind with
      | .task => []
      | .descriptor name => [("descriptor", .text name)]) ++
    [("input", .text s.input.text), ("output", .text s.output.text)])

def planValue (p : Plan) : Value :=
  .map [("input_type", .text p.inputType), ("output_type", .text p.outputType),
    ("steps", .list (p.steps.map stepValue))]

def plan (f : Format) (p : Plan) : String := f.write (planValue p) p.text

/-- A value: its type, then a line for each field. -/
def resourceText (r : Resource) : String :=
  r.type ++ "\n" ++
    String.join (r.fields.map fun e => "  " ++ e.1 ++ ": " ++ Json.compact e.2 ++ "\n")

def resource (f : Format) (r : Resource) : String := f.write r.toValue (resourceText r)

/-! ### Types, tasks and descriptors -/

/-- A text with blanks after it, so that it takes up `width` characters. -/
def padded (width : Nat) (s : String) : String :=
  s ++ String.ofList (List.replicate (width - s.length) ' ')

/-- A text with blanks before it, so that it takes up `width` characters. -/
def leftPadded (width : Nat) (s : String) : String :=
  String.ofList (List.replicate (width - s.length) ' ') ++ s

def typeLine (e : String × ResourceType) : String :=
  "  " ++ e.1 ++ " " ++ e.2.name ++
    (if e.2.fields.isEmpty then "" else " (" ++ ", ".intercalate e.2.fields ++ ")") ++ "\n"

/-- A line for a task, a name and a remark being given. -/
def taskLine (name : String) (t : Task) (remark : String) : String :=
  "  " ++ padded 16 name ++ " " ++ t.input ++ " -> " ++ t.output ++ "  " ++ remark ++ "\n"

def catalog (r : Registry) (c : Catalog) : String :=
  "types:\n" ++ String.join (r.entries.map typeLine)
    ++ "tasks:\n" ++ String.join (c.tasks.map fun t => taskLine t.name t t.description)
    ++ "descriptors:\n"
    ++ String.join (c.descriptors.map fun d => taskLine d.name d.task ("(" ++ d.task.name ++ ")"))

end View

end HornPlan
