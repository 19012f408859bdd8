/-
  HornPlan/Clause.lean
  ====================
  **Horn clauses over atoms.**

  A clause `head :- body` is of one of seven kinds.  The kind decides which of
  several clauses for a head is tried first: what is said about an instance comes
  before what holds for any instance.

  Specification, sections 3, E.3 to E.5 and G: `HornClause` with its shapes,
  `ClauseKind`, `rank` and `key`.
-/
import HornPlan.Atom
import HornPlan.Catalog

namespace HornPlan

inductive ClauseKind where
  /-- `topic_1.`: the query holds it. -/
  | inputFact
  /-- `sentence_0 :- topic_0.`: a task of the catalog. -/
  | task
  /-- `sentence_1 :- sentence_0.`: an instance falls back to any instance. -/
  | assignment
  /-- `topic_0 :- topic_1.`: an instance that is held stands for any instance. -/
  | generalization
  /-- `ingredients(recipe_2) :- topic_1.`: a descriptor bound to instances. -/
  | dependentDescriptor
  /-- `all_dependencies(recipe_2) :- ingredients(recipe_2), steps(recipe_2).` -/
  | allDependencies
  /-- `recipe_2 :- all_dependencies(recipe_2).` -/
  | completion
deriving DecidableEq, Repr, Inhabited

namespace ClauseKind

def all : List ClauseKind :=
  [.inputFact, .task, .assignment, .generalization, .dependentDescriptor, .allDependencies,
    .completion]

/-- Clauses of lower rank are tried first. -/
def rank : ClauseKind → Nat
  | inputFact => 0
  | dependentDescriptor => 1
  | allDependencies | completion => 2
  | task => 3
  | assignment | generalization => 4

def text : ClauseKind → String
  | inputFact => "input"
  | task => "task"
  | assignment => "assignment"
  | generalization => "generalization"
  | dependentDescriptor => "descriptor"
  | allDependencies => "all-dependencies"
  | completion => "completion"

end ClauseKind

/-- `head :- body`, with the step that using it contributes to a plan. -/
structure Clause where
  head : Atom
  body : List Atom
  kind : ClauseKind
  step : Option Step
deriving Inhabited

namespace Clause

/-- A resource that the query holds. -/
def inputFact (t : Tuple) : Clause := ⟨.resource t, [], .inputFact, none⟩

/-- A task from any instance to any instance. -/
def ofTask (t : Task) : Clause :=
  let step := Step.generic t
  ⟨.resource step.output, [.resource step.input], .task, some step⟩

/-- An instance may be any instance. -/
def assignment (t : Tuple) : Clause := ⟨.resource t, [.resource t.generalize], .assignment, none⟩

/-- Any instance may be this one. -/
def generalization (t : Tuple) : Clause :=
  ⟨.resource t.generalize, [.resource t], .generalization, none⟩

/-- A property that a step provides from its input, given further atoms. -/
def dependentDescriptor (step : Step) (predicate : String) (extra : List Atom) : Clause :=
  ⟨.property predicate step.output, .resource step.input :: extra, .dependentDescriptor, some step⟩

/-- Everything that a resource requires. -/
def allDependencies (subject : Tuple) (requirements : List Atom) : Clause :=
  ⟨.allDependencies subject, requirements, .allDependencies, none⟩

/-- A resource is there when all it requires is; with `needsProducer` some instance
    has to be made as well. -/
def completion (subject : Tuple) (needsProducer : Bool) : Clause :=
  ⟨.resource subject,
    (if needsProducer then [.resource subject.generalize] else []) ++ [.allDependencies subject],
    .completion, none⟩

def isFact (c : Clause) : Bool := c.body.isEmpty

/-- What makes two clauses the same. -/
def key (c : Clause) : Atom × List Atom := (c.head, c.body)

def text (c : Clause) : String :=
  if c.body.isEmpty then c.head.text ++ "."
  else c.head.text ++ " :- " ++ ", ".intercalate (c.body.map Atom.text) ++ "."

end Clause

end HornPlan
