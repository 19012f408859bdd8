/-
  HornPlan/Proofs/Catalog/Reachability.lean
  =========================================
  **The lineage of types is backward reachability.**

  `Feeds tasks` relates the input type of a task to its output type.  The closure
  that the lineage is computed by sets tasks aside as it goes; what it ends with are
  the types from which chains of tasks lead to the types it started from
  (`mem_closure`).  Cycles among the types do no harm.
-/
import HornPlan.Catalog.Lineage
import Mathlib.Logic.Relation

namespace HornPlan.Catalog

open Relation

/-- Some task makes a value of the second type from one of the first. -/
def Feeds (tasks : List Task) (s t : String) : Prop :=
  ∃ task ∈ tasks, task.input = s ∧ task.output = t

theorem Feeds.mono {tasks tasks' : List Task} (h : tasks ⊆ tasks') {s t : String} :
    Feeds tasks s t → Feeds tasks' s t := by
  rintro ⟨task, hmem, hends⟩
  exact ⟨task, h hmem, hends⟩

theorem mem_makers {tasks : List Task} {types : List String} {task : Task} :
    task ∈ makers tasks types ↔ task ∈ tasks ∧ task.output ∈ types := by
  simp only [makers, List.mem_filter, decide_eq_true_eq]

theorem mem_others {tasks : List Task} {types : List String} {task : Task} :
    task ∈ others tasks types ↔ task ∈ tasks ∧ task.output ∉ types := by
  simp only [others, List.mem_filter, decide_eq_true_eq]

/-- **The closure consists of the types from which chains of tasks lead to the given
    ones.** -/
theorem mem_closure {tasks : List Task} {types : List String} {s : String} :
    s ∈ closure tasks types ↔ ∃ root ∈ types, ReflTransGen (Feeds tasks) s root := by
  fun_induction closure tasks types with
  | case1 tasks types hnone =>
    constructor
    · intro hs
      exact ⟨s, hs, .refl⟩
    · rintro ⟨root, hroot, hreach⟩
      -- nothing leads into the given types, so the chain is empty
      rcases hreach.cases_tail with rfl | ⟨m, -, task, htask, -, hout⟩
      · exact hroot
      · have hmaker : task ∈ makers tasks types := mem_makers.2 ⟨htask, hout ▸ hroot⟩
        rw [hnone] at hmaker
        cases hmaker
  | case2 tasks types _ ih =>
    rw [ih]
    clear ih
    constructor
    · rintro ⟨root, hroot, hreach⟩
      have hsub : others tasks types ⊆ tasks := by
        intro task htask
        exact (mem_others.1 htask).1
      have hreach' := ReflTransGen.mono (fun _ _ => Feeds.mono hsub) _ _ hreach
      rcases List.mem_append.1 hroot with hroot | hroot
      · exact ⟨root, hroot, hreach'⟩
      · obtain ⟨task, htask, rfl⟩ := List.mem_map.1 hroot
        obtain ⟨htask, hout⟩ := mem_makers.1 htask
        exact ⟨task.output, hout, hreach'.tail ⟨task, htask, rfl, rfl⟩⟩
    · rintro ⟨root, hroot, hreach⟩
      -- follow the chain up to the first task that makes one of the given types
      induction hreach using ReflTransGen.head_induction_on with
      | refl => exact ⟨root, List.mem_append_left _ hroot, .refl⟩
      | @head a b hstep _ ih' =>
        obtain ⟨task, htask, rfl, rfl⟩ := hstep
        by_cases hout : task.output ∈ types
        · have hmaker : task ∈ makers tasks types := mem_makers.2 ⟨htask, hout⟩
          exact ⟨task.input, List.mem_append_right _ (List.mem_map_of_mem hmaker), .refl⟩
        · obtain ⟨root', hroot', hreach'⟩ := ih'
          exact ⟨root', hroot', hreach'.head ⟨task, mem_others.2 ⟨htask, hout⟩, rfl, rfl⟩⟩

/-- The tasks on the lineage are those from whose results chains of tasks lead to the
    given types. -/
theorem mem_lineage {c : Catalog} {types : List String} {task : Task} :
    task ∈ c.lineage types ↔
      task ∈ c.tasks ∧ ∃ root ∈ types, ReflTransGen (Feeds c.tasks) task.output root := by
  rw [lineage, mem_makers, mem_closure]

/-- What leads to a type on a lineage is on the lineage. -/
theorem lineage_subset {c : Catalog} {types types' : List String}
    (h : ∀ t ∈ types, ∃ root ∈ types', ReflTransGen (Feeds c.tasks) t root) :
    c.lineage types ⊆ c.lineage types' := by
  intro task htask
  obtain ⟨hmem, t, ht, hreach⟩ := mem_lineage.1 htask
  obtain ⟨root, hroot, hreach'⟩ := h t ht
  exact mem_lineage.2 ⟨hmem, root, hroot, hreach.trans hreach'⟩

end HornPlan.Catalog
