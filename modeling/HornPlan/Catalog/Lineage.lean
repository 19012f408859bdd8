/-
  HornPlan/Catalog/Lineage.lean
  =============================
  **The lineage of types.**

  The lineage of some types consists of them and of the types from which chains of
  tasks lead to them.  The tasks on the lineage are those whose result is of a
  type of the lineage.  They are checked before they are used: both types of each
  have to be registered.

  Specification, section 4.3, step 2: the type lineage, `lineage_tasks`.
-/
import HornPlan.Catalog
import HornPlan.Registry

namespace HornPlan

namespace Catalog

/-- The tasks whose result is of one of some types. -/
def makers (tasks : List Task) (types : List String) : List Task :=
  tasks.filter fun t => t.output ∈ types

def others (tasks : List Task) (types : List String) : List Task :=
  tasks.filter fun t => t.output ∉ types

theorem length_others_lt {tasks : List Task} {types : List String} (h : makers tasks types ≠ []) :
    (others tasks types).length < tasks.length := by
  obtain ⟨t, ht⟩ := List.exists_mem_of_ne_nil _ h
  obtain ⟨ht, hout⟩ := List.mem_filter.1 ht
  exact List.length_filter_lt_length_iff_exists.2 ⟨t, ht, by simpa using hout⟩

/-- Adds to `types` the types from which chains of `tasks` lead to them.  A task is
    set aside once its output has been found on the lineage. -/
def closure (tasks : List Task) (types : List String) : List String :=
  if _h : makers tasks types = [] then types
  else closure (others tasks types) (types ++ (makers tasks types).map Task.input)
termination_by tasks.length
decreasing_by exact length_others_lt _h

/-- The tasks on the lineage of some types, in the order of the catalog. -/
def lineage (c : Catalog) (types : List String) : List Task :=
  makers c.tasks (closure c.tasks types)

end Catalog

/-- Checks that both types of a task are registered, its input first. -/
def Registry.checkTask (r : Registry) (t : Task) : Except Error Unit :=
  match [t.input, t.output].find? fun type => !r.contains type with
  | some type => .error (.unresolvedAlias type ("task " ++ t.name))
  | none => .ok ()

/-- The tasks on the lineage of some types, once they have been checked. -/
def Catalog.checkedLineage (c : Catalog) (r : Registry) (types : List String) :
    Except Error (List Task) := do
  (c.lineage types).forM r.checkTask
  return c.lineage types

end HornPlan
