/-
  HornPlan/Catalog.lean
  =====================
  **Tasks, descriptors, and the catalog that holds them.**

  A task turns a value of one type into a value of another.  A descriptor is a task
  whose result annotates the resource it describes.  The work behind a task is any
  function of the input value; planning only looks at the types.

  Specification, sections 3 and 4.2: `Task`, with `invoke`, `Descriptor`,
  `DependentTask`, and `Catalog`, with `register_task`, `register_descriptor`, `task`,
  `descriptor` and `producers_of`.
-/
import HornPlan.Catalog.Table
import HornPlan.Resource

namespace HornPlan

/-- A named piece of work between two types.  The work either yields a value or
    says why it failed. -/
structure Task where
  name : String
  description : String
  input : String
  output : String
  work : Resource → Except String Resource
deriving Inhabited

namespace Task

/-- Runs the work on a value of the input type.  A result of another type than the
    output is an error. -/
def invoke (t : Task) (value : Resource) : Except Error Resource :=
  match t.work value with
  | .error reason => .error (.taskExecution t.name reason)
  | .ok result =>
    if result.type = t.output then .ok result
    else .error (.typeMismatch t.name t.output result.type)

end Task

/-- A task known to query documents under an alias. -/
structure Descriptor where
  name : String
  task : Task
deriving Inhabited

/-! ### Bound steps -/

/-- What becomes of the result of a step. -/
inductive StepKind where
  /-- It takes the place of the output. -/
  | task
  /-- It annotates the output. -/
  | descriptor (name : String)
deriving DecidableEq, Repr, Inhabited

/-- A task bound to the tuples that it reads and writes. -/
structure Step where
  task : Task
  kind : StepKind
  input : Tuple
  output : Tuple
deriving Inhabited

namespace Step

/-- A task from any instance of its input to any instance of its output. -/
def generic (t : Task) : Step := ⟨t, .task, .wildcard t.input, .wildcard t.output⟩

/-- A descriptor that works from one tuple and describes another. -/
def ofDescriptor (d : Descriptor) (input output : Tuple) : Step :=
  ⟨d.task, .descriptor d.name, input, output⟩

def name (s : Step) : String := s.task.name

def text (s : Step) : String :=
  let mark :=
    match s.kind with
    | .task => ""
    | .descriptor name => " [" ++ name ++ "]"
  s.task.name ++ mark ++ ": " ++ s.input.text ++ " -> " ++ s.output.text

end Step

/-! ### Catalogs -/

/-- Tasks and descriptors in the order of registration.  The two do not share names:
    a descriptor may be called like a task. -/
structure Catalog where
  taskTable : Table Task.name
  descriptorTable : Table Descriptor.name
deriving Inhabited

namespace Catalog

def empty : Catalog := ⟨.empty, .empty⟩

def tasks (c : Catalog) : List Task := c.taskTable.items

def descriptors (c : Catalog) : List Descriptor := c.descriptorTable.items

def task? (c : Catalog) (name : String) : Option Task := c.taskTable.get? name

def descriptor? (c : Catalog) (name : String) : Option Descriptor := c.descriptorTable.get? name

/-- Adds a task under its name, which may not be in use by a task. -/
def addTask (c : Catalog) (t : Task) : Registration Catalog :=
  let (added, taskTable) := c.taskTable.add t
  (if added then .ok () else .error (.duplicateTask t.name), { c with taskTable })

/-- Adds a task as a descriptor under an alias, which may not be in use by a descriptor. -/
def addDescriptor (c : Catalog) (name : String) (t : Task) : Registration Catalog :=
  let (added, descriptorTable) := c.descriptorTable.add ⟨name, t⟩
  (if added then .ok () else .error (.duplicateDescriptor name), { c with descriptorTable })

def registerTask (c : Catalog) (t : Task) : Except Error Catalog := (c.addTask t).result

def registerDescriptor (c : Catalog) (name : String) (t : Task) : Except Error Catalog :=
  (c.addDescriptor name t).result

/-- The tasks whose result is of a type. -/
def producersOf (c : Catalog) (type : String) : List Task :=
  c.tasks.filter fun t => t.output = type

end Catalog

end HornPlan
