/-
  HornPlan/Query/Compilation.lean
  ===============================
  **From query documents to clause databases.**

  The sections of a document are read one after the other:

  1. an input becomes a fact, and a generalization so that tasks, which ask for
     any instance, can start from it;
  2. a resource becomes the descriptors bound to it, the aggregate of all that it
     requires, and its completion; or an assignment when nothing is required;
  3. what is only referred to, such as an output that is not declared, becomes an
     assignment.

  Last come the tasks on the lineage of all types for which some instance has to
  be made.  The first thing that does not fit, in the order of the document, is
  the error.

  Specification, sections 4.3, E.4, E.5 and G: `QueryCompiler`, with `compile`, `tuple`
  and `reference`.
-/
import HornPlan.Query.Basic
import HornPlan.Database
import HornPlan.Catalog.Lineage

namespace HornPlan

namespace Query

/-! ### Referring to instances -/

/-- The instance that an alias and an id name.  The alias has to be registered. -/
def tuple (r : Registry) (context : String) (type : String) (id : UInt32) : Except Error Tuple :=
  if r.contains type then do
    return .concrete type (← InstanceId.parse id (context ++ " " ++ type))
  else .error (.unresolvedAlias type context)

def reference (r : Registry) (context : String) (e : Entry Reference) : Except Error Tuple :=
  tuple r context e.type e.spec.id

/-! ### Inputs -/

/-- The instance and the value of an input. -/
def compileInput (r : Registry) (e : Entry InputSpec) : Except Error (Tuple × Resource) := do
  let t ← tuple r "input" e.type e.spec.id
  match e.spec.args with
  | some (arg :: args) => return (t, ← r.instantiate e.type (arg :: args))
  | _ => .error (.emptyArguments e.type e.spec.id)

/-! ### Resources -/

/-- What a part of a document contributes. -/
structure Contribution where
  clauses : List Clause
  /-- The instances that it refers to. -/
  references : List Tuple
  /-- The types of which some instance may have to be made. -/
  roots : List String

/-- Takes the first param of a type out of a list of params. -/
def takeParam? (type : String) : List Tuple → Option (Tuple × List Tuple)
  | [] => none
  | t :: rest =>
    if t.type = type then some (t, rest)
    else (takeParam? type rest).map fun (found, others) => (found, t :: others)

/-- The clause that a descriptor of a resource becomes.  A descriptor that the
    catalog does not have becomes none, so its property cannot be proved. -/
def bindDescriptor (c : Catalog) (subject : Tuple) (name : String) (params : List Tuple) :
    Except Error (List Clause) :=
  match c.descriptor? name with
  | none => .ok []
  | some d =>
    if d.task.output = subject.type then
      match takeParam? d.task.input params with
      | some (input, extra) =>
        .ok [.dependentDescriptor (.ofDescriptor d input subject) name (extra.map .resource)]
      | none =>
        .error (.descriptorTypeMismatch name subject.text d.task.input
          (", ".intercalate (params.map Tuple.type)))
    else .error (.descriptorTypeMismatch name subject.text d.task.output subject.type)

def compileDescriptor (r : Registry) (c : Catalog) (subject : Tuple)
    (descriptor : String × DescriptorSpec) : Except Error Contribution := do
  let params ← descriptor.2.params.mapM fun p => reference r ("resource " ++ subject.text) p.2
  return ⟨← bindDescriptor c subject descriptor.1 params, params, []⟩

/-- The clauses that say when a resource is complete. -/
def completionClauses (subject : Tuple) (properties dependencies : List Atom) : List Clause :=
  if properties.isEmpty ∧ dependencies.isEmpty then [.assignment subject]
  else
    [.allDependencies subject (properties ++ dependencies),
      .completion subject properties.isEmpty]

/-- The declared instance and what its declaration contributes. -/
def compileResource (r : Registry) (c : Catalog) (e : Entry ResourceSpec) :
    Except Error (Tuple × Contribution) := do
  let subject ← tuple r "resources" e.type e.spec.id
  let bound ← e.spec.descriptors.mapM (compileDescriptor r c subject)
  let dependencies ← e.spec.dependencies.mapM (reference r ("resource " ++ subject.text))
  let properties := e.spec.descriptors.map fun d => Atom.property d.1 subject
  return (subject,
    { clauses := bound.flatMap Contribution.clauses
        ++ completionClauses subject properties (dependencies.map .resource)
      references := bound.flatMap Contribution.references ++ dependencies
      roots := if properties.isEmpty then [subject.type] else [] })

/-! ### Whole documents -/

/-- What the document demands of the catalog: everything but the task clauses. -/
structure Demand where
  clauses : List Clause
  inputs : List (Tuple × Resource)
  outputs : List Tuple
  /-- The types of which some instance may have to be made. -/
  roots : List String

def demand (r : Registry) (c : Catalog) (q : Query) : Except Error Demand := do
  let inputs ← q.input.mapM (compileInput r)
  let declared ← q.resources.mapM (compileResource r c)
  let outputs ← q.output.mapM (reference r "output")
  let known := inputs.map Prod.fst ++ declared.map Prod.fst
  let loose := ((declared.flatMap fun d => d.2.references) ++ outputs).filter (· ∉ known)
  return {
    clauses := (inputs.flatMap fun i => [Clause.inputFact i.1, Clause.generalization i.1])
      ++ (declared.flatMap fun d => d.2.clauses)
      ++ loose.map Clause.assignment
    inputs
    outputs
    roots := (declared.flatMap fun d => d.2.roots) ++ loose.map Tuple.type }

/-- The database of some clauses for a demand. -/
def Demand.database (d : Demand) (tasks : List Task) : Database :=
  { Database.empty.pushAll (d.clauses ++ tasks.map Clause.ofTask) with
    inputs := d.inputs
    outputs := d.outputs }

/-- Compiles a document against the registered types and the catalog. -/
def compile (r : Registry) (c : Catalog) (q : Query) : Except Error Database := do
  let d ← demand r c q
  return d.database (← c.checkedLineage r d.roots)

end Query

end HornPlan
