/-
  HornPlan
  ========
  **Plans from declarative queries.**

  A query document says which resources are at hand and which are wanted.  It is
  compiled to Horn clauses; backward chaining proves the wanted resources; the
  proofs give the plan; and the plan is run.

  The headers of the modules name the section of the planner's specification that a
  module is about, and the planner's own names for the types and operations in it.
-/
import HornPlan.Atom.Decoding
import HornPlan.CommandLine.Disk
import HornPlan.Main
import HornPlan.Proofs.Database.ClauseSet
import HornPlan.Proofs.Plan.Chain
import HornPlan.Proofs.Plan.Order
import HornPlan.Proofs.Plan.Relevance
import HornPlan.Proofs.Plan.Report
import HornPlan.Proofs.Plan.SingleAssignment
import HornPlan.Proofs.Query.Acceptance
import HornPlan.Proofs.Query.Acyclic
import HornPlan.Proofs.Query.Gaps
import HornPlan.Proofs.Query.Independence
import HornPlan.Proofs.Query.Phases
import HornPlan.Proofs.Query.Rearrangement
import HornPlan.Proofs.Query.RoundTrip
import HornPlan.Proofs.Query.WellFormed
import HornPlan.Proofs.Registry.History
import HornPlan.Proofs.Search.Cycle
import HornPlan.Proofs.Search.Nesting
import HornPlan.Proofs.Search.Preference
import HornPlan.Proofs.Search.Room
