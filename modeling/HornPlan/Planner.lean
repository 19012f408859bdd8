/-
  HornPlan/Planner.lean
  =====================
  **Types, tasks and the limit of the proof search in one place.**

  A planner takes a document all the way: to clauses, to proofs, to a plan, and to
  the result of running it.

  Specification, section 6: `Planner`, with `compile`, `derive`, `resolve`, `solve` and
  `run`.
-/
import HornPlan.Query.Compilation
import HornPlan.Plan.Extraction
import HornPlan.Report

namespace HornPlan

structure Planner where
  registry : Registry
  catalog : Catalog
  /-- How deep goals may nest in a proof. -/
  maxDepth : Nat
deriving Inhabited

/-- All that solving a query yields. -/
structure Solution where
  database : Database
  derivations : List (Tuple × Derivation)
  plan : Plan
deriving Inhabited

namespace Planner

/-- The nesting that is allowed unless something else is said. -/
def defaultDepth : Nat := 64

def compile (p : Planner) (q : Query) : Except Error Database := q.compile p.registry p.catalog

def derive (p : Planner) (db : Database) : Except Error (List (Tuple × Derivation)) :=
  (Session.start db p.maxDepth).derive.1

/-- The plan for the outputs of a database. -/
def resolve (p : Planner) (db : Database) : Except Error Plan :=
  (Session.start db p.maxDepth).resolve.1

/-- Compiles a document, proves its outputs and makes a plan of the proofs. -/
def solve (p : Planner) (q : Query) : Except Error Solution := do
  let database ← p.compile q
  let derivations ← p.derive database
  return { database, derivations, plan := ← Plan.ofDerivations database derivations }

/-- Solves a document and runs the plan from its inputs. -/
def run (p : Planner) (stamp : Stamp) (label : String) (q : Query) :
    Except Error (Report × Except Error Resource) := do
  let s ← p.solve q
  return Report.run stamp label s.plan s.database.seed

end Planner

end HornPlan
