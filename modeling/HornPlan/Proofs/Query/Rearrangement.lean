/-
  HornPlan/Proofs/Query/Rearrangement.lean
  ========================================
  **The order of the entries does not matter to what a document compiles to.**

  The sections are lists, and a clause that has been pushed is not pushed again, so the
  order of the entries decides in which order clauses come and which of several clauses
  with the same head and body is kept.  It decides nothing else.  Rearranged documents are
  read as the same instances and contributions in another order (`Reading.rearranged`);
  what is loose depends on which instances are held or declared, not on where; and the
  lineage depends on its roots as a set (`Catalog.lineage_congr`), so the very same tasks
  are checked and pushed.

  Among the clauses that a document demands, head and body determine the rest
  (`Shape.eq_of_key`), so it makes no difference which of them came first.  Task clauses
  are told apart by their ends alone, but they come in the order of the catalog.

  Specification, section 8 (round trip): equal clause sets, here of rearranged
  documents.
-/
import HornPlan.Demo
import HornPlan.Proofs.Database.SameProgram
import HornPlan.Proofs.Query.Pruning

namespace HornPlan

/-- **The tasks on a lineage depend on its roots as a set.** -/
theorem Catalog.lineage_congr {c : Catalog} {types types' : List String}
    (h : ∀ t, t ∈ types ↔ t ∈ types') : c.lineage types = c.lineage types' := by
  have hclosure : ∀ t, t ∈ closure c.tasks types ↔ t ∈ closure c.tasks types' := by
    intro t
    simp only [mem_closure, h]
  apply List.filter_congr
  intro task _
  rw [decide_eq_decide]
  exact hclosure task.output

namespace Query

variable {r : Registry} {c : Catalog} {q q' : Query} {db : Database}

/-! ### Rearranged documents -/

/-- Documents with the same entries in each section, in any order. -/
structure Rearranged (q q' : Query) : Prop where
  input : q.input.Perm q'.input
  resources : q.resources.Perm q'.resources
  output : q.output.Perm q'.output

theorem Rearranged.symm (h : q.Rearranged q') : q'.Rearranged q :=
  ⟨h.input.symm, h.resources.symm, h.output.symm⟩

namespace Reading

theorem eq_of_key (s : Reading r c q) {cl d : Clause} (hcl : cl ∈ s.demand.clauses)
    (hd : d ∈ s.demand.clauses) (hkey : cl.key = d.key) : cl = d := by
  obtain ⟨hshape, hkind⟩ := s.shape_of_demand hd
  exact (s.shape_of_demand hcl).1.eq_of_key hshape hkind hkey

/-- What is demanded and what the tasks add do not get in each other's way. -/
theorem clauses_perm (s : Reading r c q) :
    s.database.clauses.Perm ((Database.empty.pushAll s.demand.clauses).clauses ++
      (Database.empty.pushAll (s.tasks.map .ofTask)).clauses) := by
  apply Database.pushAll_append_perm fun _ => s.leadsInto_of_demand []
  intro cl hcl
  obtain ⟨t, -, rfl⟩ := List.mem_map.1 hcl
  rfl

/-- Sections that have been read as the same, in any order. -/
structure Rearranged (s : Reading r c q) (s' : Reading r c q') : Prop where
  inputs : s.inputs.Perm s'.inputs
  declared : s.declared.Perm s'.declared
  outputs : s.outputs.Perm s'.outputs

theorem rearranged (s : Reading r c q) (h : q.Rearranged q') :
    ∃ s' : Reading r c q', s.Rearranged s' := by
  obtain ⟨inputs, hinputs, hin⟩ := exists_results_of_perm h.input s.inputs_eq
  obtain ⟨declared, hdeclared, hdecl⟩ := exists_results_of_perm h.resources s.declared_eq
  obtain ⟨outputs, houtputs, hout⟩ := exists_results_of_perm h.output s.outputs_eq
  exact ⟨⟨inputs, declared, outputs, hinputs, hdeclared, houtputs⟩, hin, hdecl, hout⟩

namespace Rearranged

variable {s : Reading r c q} {s' : Reading r c q'} (h : s.Rearranged s')
include h

theorem loose : s.loose.Perm s'.loose := by
  -- what is held or declared in one is so in the other
  have hknown : (s.held ++ s.declared.map Prod.fst).Perm (s'.held ++ s'.declared.map Prod.fst) :=
    (h.inputs.map _).append (h.declared.map _)
  have hreferences := (h.declared.flatMap_right fun d => d.2.references).append h.outputs
  unfold Reading.loose
  simp only [hknown.mem_iff]
  exact hreferences.filter _

theorem clauses : s.demand.clauses.Perm s'.demand.clauses :=
  ((h.inputs.flatMap_right _).append (h.declared.flatMap_right _)).append (h.loose.map _)

theorem roots : s.demand.roots.Perm s'.demand.roots :=
  (h.declared.flatMap_right _).append (h.loose.map _)

theorem tasks : s.tasks = s'.tasks := Catalog.lineage_congr fun _ => h.roots.mem_iff

theorem database : s.database.SameProgram s'.database := by
  have htasks := s'.clauses_perm
  rw [← h.tasks] at htasks
  have hdemand : (Database.empty.pushAll s.demand.clauses).clauses.Perm
      (Database.empty.pushAll s'.demand.clauses).clauses :=
    Database.pushAll_perm h.clauses fun _ hcl _ => s.eq_of_key hcl
  exact .of_perm (s.clauses_perm.trans ((hdemand.append_right _).trans htasks.symm)) h.inputs
    h.outputs

end Rearranged

end Reading

theorem Rearranged.exists_compile (h : q.Rearranged q') (hdb : q.compile r c = .ok db) :
    ∃ db', q'.compile r c = .ok db' ∧ db.SameProgram db' := by
  obtain ⟨s, htasks, rfl⟩ := compile_eq_ok.1 hdb
  obtain ⟨s', hs⟩ := s.rearranged h
  exact ⟨s'.database, compile_eq_ok.2 ⟨s', hs.tasks ▸ htasks, rfl⟩, hs.database⟩

/-- **The order of the entries does not change the clause program.** -/
theorem compile_rearranged (h : q.Rearranged q') :
    ((∃ db, q.compile r c = .ok db) ↔ ∃ db', q'.compile r c = .ok db') ∧
      ∀ db db', q.compile r c = .ok db → q'.compile r c = .ok db' → db.SameProgram db' := by
  refine ⟨⟨?_, ?_⟩, ?_⟩
  · rintro ⟨db, hdb⟩
    obtain ⟨db', hdb', -⟩ := h.exists_compile hdb
    exact ⟨db', hdb'⟩
  · rintro ⟨db', hdb'⟩
    obtain ⟨db, hdb, -⟩ := h.symm.exists_compile hdb'
    exact ⟨db, hdb⟩
  · intro db db' hdb hdb'
    -- there is one result of compiling a document
    obtain ⟨db'', hdb'', hsame⟩ := h.exists_compile hdb
    rw [hdb'] at hdb''
    cases hdb''
    exact hsame

def reversed (q : Query) : Query := ⟨q.input.reverse, q.resources.reverse, q.output.reverse⟩

theorem rearranged_reversed (q : Query) : q.Rearranged q.reversed :=
  ⟨(List.reverse_perm _).symm, (List.reverse_perm _).symm, (List.reverse_perm _).symm⟩

end Query

/-! ### A document from the last entry to the first -/

namespace Demo

/-- One topic is held twice and declared as well; the recipe depends on a paragraph that is
    declared after it, and that on a sentence which is wanted, too. -/
def larderQuery : Query :=
  (((Query.empty.withInput "topic" 1 [("topic", .text "leek")]).withInput "topic" 6
      [("topic", .text "oat")]).withInput "topic" 1 [("topic", .text "kale")])
    |>.withResource "recipe"
      (((ResourceSpec.ofId 2).describe "title" [("of", "topic", 1)]).dependsOn "paragraph" 5)
    |>.withResource "paragraph" ((ResourceSpec.ofId 5).dependsOn "sentence" 3)
    |>.withResource "topic" (ResourceSpec.ofId 1)
    |>.withOutput "recipe" 2
    |>.withOutput "sentence" 3

/-- The clauses come in another order, but they are the same. -/
theorem compile_rearranged_larder : ∃ p db db', planner 8 = .ok p ∧
    larderQuery.compile p.registry p.catalog = .ok db ∧
      larderQuery.reversed.compile p.registry p.catalog = .ok db' ∧
        db.program ≠ db'.program ∧ db.SameProgram db' := by
  have hall : ((planner 8).toOption.any fun p =>
      (larderQuery.compile p.registry p.catalog).toOption.any fun db =>
        (larderQuery.reversed.compile p.registry p.catalog).toOption.any fun db' =>
          db.program ≠ db'.program) = true := by
    decide +kernel
  obtain ⟨p, hp, hall⟩ := any_toOption_iff.1 hall
  obtain ⟨db, hdb, hall⟩ := any_toOption_iff.1 hall
  obtain ⟨db', hdb', hall⟩ := any_toOption_iff.1 hall
  exact ⟨p, db, db', hp, hdb, hdb', of_decide_eq_true hall,
    (Query.compile_rearranged larderQuery.rearranged_reversed).2 db db' hdb hdb'⟩

end Demo

end HornPlan
