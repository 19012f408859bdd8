/-
  HornPlan/Proofs/Query/Pruning.lean
  ==================================
  **Leaving out the tasks that are not on the lineage changes nothing.**

  A document compiles to the clauses that it demands and to those of the tasks on the
  lineage of its roots.  Had all tasks of the catalog been taken (`Query.compileWhole`),
  the database would hold the same clauses in the same order, with further task clauses
  in between (`Reading.clauses_database`).  No goal of a search leads to one of those: a
  body that asks for any instance of a type asks for a type on the lineage
  (`Reading.mem_lineageTypes_of_body`), and of such a type the lineage has all producers.

  So the two databases agree on all atoms that come up, and `derive_whole` follows: the
  outputs are derived in the same way or refused for the same reason, at every depth,
  and the plans are the same.

  Specification, section 4.3, step 2: tasks are taken by type lineage.
-/
import HornPlan.Proofs.Plan.Soundness
import HornPlan.Proofs.Query.Independence
import HornPlan.Proofs.Search.Agreement

namespace HornPlan

open HornPlan.Derivation Relation

namespace Query

/-- Compiles a document with the clauses of all tasks of the catalog. -/
def compileWhole (r : Registry) (c : Catalog) (q : Query) : Except Error Database := do
  let d ← q.demand r c
  return d.database c.tasks

variable {r : Registry} {c : Catalog} {q : Query}

/-! ### The types on the lineage -/

/-- Is the head of a clause between any instances of types one of some types? -/
def leadsInto (types : List String) : Atom × List Atom → Bool
  | (.resource ⟨x, none⟩, [.resource ⟨_, none⟩]) => x ∈ types
  | _ => true

/-- The atoms that are not about any instance of a type off the lineage. -/
def onLineage (types : List String) : Set Atom := {a | ∀ x, a = .any x → x ∈ types}

theorem Named.mem_onLineage {t : Tuple} (h : Named r t) (types : List String) :
    .resource t ∈ onLineage types := fun x hx => absurd hx (h.any_ne x)

theorem leadsInto_of_head {types : List String} {cl : Clause}
    (h : cl.head ∈ onLineage types) : leadsInto types cl.key = true := by
  unfold leadsInto
  split
  · rename_i x _ hkey
    exact decide_eq_true (h x (congrArg Prod.fst hkey))
  · rfl

namespace Reading

variable (s : Reading r c q)

/-- The types from which chains of tasks lead to the roots. -/
def lineageTypes : List String := Catalog.closure c.tasks s.demand.roots

/-- **Any instance is asked for of types on the lineage only.** -/
theorem mem_lineageTypes_of_body {cl : Clause} (hcl : cl ∈ s.database.clauses) {x : String}
    (hx : .any x ∈ cl.body) : x ∈ s.lineageTypes := by
  have hasked : (cl.kind = .assignment ∨ cl.kind = .completion) →
      cl.body.head? = some (.any x) → x ∈ s.lineageTypes := by
    intro hkind hfirst
    exact Catalog.mem_closure.2 ⟨x, s.mem_roots_of_asked ⟨cl, hcl, hkind, hfirst⟩, .refl⟩
  rcases s.mem_database hcl with hdemand | ⟨t, ht, rfl⟩
  · cases (s.shape_of_demand hdemand).1 with
    | inputFact _ _ => cases hx
    | generalization _ hname => exact absurd (List.mem_singleton.1 hx).symm (hname.any_ne x)
    | assignment _ =>
      rw [List.mem_singleton.1 hx] at hasked
      exact hasked (Or.inl rfl) rfl
    | @completion e _ _ =>
      rcases List.mem_append.1 hx with hproduced | haggregate
      · split at hproduced
        · rename_i hempty
          refine hasked (Or.inr rfl) ?_
          rw [Clause.completion, if_pos hempty, List.mem_singleton.1 hproduced]
          rfl
        · cases hproduced
      · cases List.mem_singleton.1 haggregate
    | @allDependencies e deps _ _ hdeps _ =>
      rcases List.mem_append.1 hx with hprop | hdep
      · obtain ⟨_, -, hprop⟩ := List.mem_map.1 hprop
        cases hprop
      · obtain ⟨t, ht, hdep⟩ := List.mem_map.1 hdep
        exact absurd hdep ((hdeps t ht).any_ne x)
    | @descriptor e name d input extra _ _ _ _ _ _ hinput hextra =>
      rcases List.mem_cons.1 hx with hfirst | hrest
      · exact absurd hfirst.symm (hinput.any_ne x)
      · obtain ⟨t, ht, hrest⟩ := List.mem_map.1 hrest
        exact absurd hrest ((hextra t ht).any_ne x)
    | task _ _ => exact absurd rfl (s.shape_of_demand hdemand).2
  · -- a chain that leads on from the result of the task leads on from what it takes
    obtain ⟨hmem, hout⟩ := Catalog.mem_makers.1 ht
    obtain ⟨root, hroot, hreach⟩ := Catalog.mem_closure.1 hout
    injection List.mem_singleton.1 hx with htuple
    injection htuple with htype
    exact Catalog.mem_closure.2 ⟨root, hroot, hreach.head ⟨t, hmem, htype.symm, rfl⟩⟩

/-- A clause that the document demands is not between any instances. -/
theorem leadsInto_of_demand (types : List String) {cl : Clause} (hcl : cl ∈ s.demand.clauses) :
    leadsInto types cl.key = true := by
  obtain ⟨hshape, hkind⟩ := s.shape_of_demand hcl
  cases hshape with
  | task _ _ => exact absurd rfl hkind
  | generalization _ hname =>
    unfold leadsInto
    split
    · rename_i hkey
      injection congrArg Prod.snd hkey with hbody
      exact absurd hbody (hname.any_ne _)
    · rfl
  | inputFact _ hname => exact leadsInto_of_head (hname.mem_onLineage types)
  | completion _ hname => exact leadsInto_of_head (hname.mem_onLineage types)
  | assignment hname => exact leadsInto_of_head (hname.mem_onLineage types)
  | allDependencies _ _ _ _ => rfl
  | descriptor _ _ _ _ _ _ _ _ => rfl

/-- The database is what the lineage selects from that with all tasks. -/
theorem clauses_database :
    s.database.clauses =
      (s.demand.database c.tasks).clauses.filter fun cl => leadsInto s.lineageTypes cl.key := by
  have hselect : s.demand.clauses ++ s.tasks.map Clause.ofTask =
      (s.demand.clauses ++ c.tasks.map Clause.ofTask).filter fun cl =>
        leadsInto s.lineageTypes cl.key := by
    rw [List.filter_append, List.filter_map,
      List.filter_eq_self.2 fun cl => s.leadsInto_of_demand s.lineageTypes]
    rfl
  rw [database, Demand.database, hselect]
  exact Database.clauses_pushAll_filter (leadsInto s.lineageTypes) _ rfl

/-- Bodies do not leave the lineage. -/
theorem body_onLineage {cl : Clause} (hcl : cl ∈ s.database.clauses) :
    ∀ b ∈ cl.body, b ∈ onLineage s.lineageTypes := by
  rintro _ hb x rfl
  exact s.mem_lineageTypes_of_body hcl hb

/-- The database with all tasks and that with those on the lineage agree on all that
    the clauses lead to. -/
theorem agreeOn : Database.AgreeOn (onLineage s.lineageTypes) (s.demand.database c.tasks)
    s.database :=
  Database.agreeOn_of_filter s.clauses_database (fun _ _ => leadsInto_of_head)
    fun _ => s.body_onLineage

theorem readsFirst (tasks : List Task) : (s.demand.database tasks).ReadsFirst := by
  intro cl hcl step hstep
  rcases s.mem_database hcl with hdemand | ⟨t, -, rfl⟩
  · exact (s.shape_of_demand hdemand).1.formed.readsFirst hstep
  · exact (Clause.Formed.task t).readsFirst hstep

end Reading

/-- **Pruning the tasks to the lineage is invisible**: with all tasks of the catalog the
    outputs are refused for the same reason, or have proofs that read the same and give
    the same plan. -/
theorem derive_whole {db : Database} (h : q.compile r c = .ok db) :
    ∃ full, q.compileWhole r c = .ok full ∧ ∀ maxDepth,
      (∃ e, (Session.start full maxDepth).derive.1 = .error e ∧
        (Session.start db maxDepth).derive.1 = .error e) ∨
      ∃ ds ds', (Session.start full maxDepth).derive.1 = .ok ds ∧
        (Session.start db maxDepth).derive.1 = .ok ds' ∧
          spelledPairs full ds = spelledPairs db ds' ∧
            Plan.ofDerivations full ds = Plan.ofDerivations db ds' := by
  obtain ⟨s, htasks, rfl⟩ := compile_eq_ok.1 h
  have hcomp := s.compiled htasks
  refine ⟨s.demand.database c.tasks, bind_eq_ok.2 ⟨s.demand, demand_eq_ok.2 ⟨s, rfl⟩, rfl⟩, ?_⟩
  intro maxDepth
  have hstart : Session.Alongside (onLineage s.lineageTypes)
      (.start (s.demand.database c.tasks) maxDepth) (.start s.database maxDepth) :=
    ⟨Session.settled_start _ _, Session.settled_start _ _, s.agreeOn, rfl, rfl⟩
  have hwanted : ∀ o ∈ s.outputs, .resource o ∈ onLineage s.lineageTypes := by
    intro o ho
    exact (hcomp.wanted o (s.outputs_eq_outputTuples ▸ ho)).mem_onLineage _
  rcases hstart.deriveAll s.outputs hwanted with herror | ⟨ds, ds', hds, hds', hsame⟩
  · exact Or.inl herror
  · change (Session.start (s.demand.database c.tasks) maxDepth).derive.1 = .ok ds at hds
    change (Session.start s.database maxDepth).derive.1 = .ok ds' at hds'
    obtain ⟨hgenuine, -, hatoms⟩ := Session.derive_genuine hds
    obtain ⟨hgenuine', -, hatoms'⟩ := Session.derive_genuine hds'
    exact Or.inr ⟨ds, ds', hds, hds', hsame, Plan.ofDerivations_eq_of_alike hgenuine
      (s.readsFirst c.tasks) hatoms hgenuine' (s.readsFirst s.tasks) hatoms' hsame⟩

end Query

/-! ### A query with a task off its lineage -/

/-- Does a document compile to fewer clauses than with all tasks, and is it derived? -/
def Demo.prunes (q : Query) : Bool :=
  (planner 8).toOption.any fun p =>
    (q.compile p.registry p.catalog).toOption.any fun db =>
      (q.compileWhole p.registry p.catalog).toOption.any fun full =>
        decide (db.size < full.size) && (Session.start db p.maxDepth).derive.1.isOk

theorem Demo.prunes_eq_true {q : Query} (h : prunes q = true) : ∃ p db full,
    planner 8 = .ok p ∧ q.compile p.registry p.catalog = .ok db ∧
      q.compileWhole p.registry p.catalog = .ok full ∧ db.size < full.size ∧
        (Session.start db p.maxDepth).derive.1.isOk = true := by
  obtain ⟨p, hp, h⟩ := any_toOption_iff.1 h
  obtain ⟨db, hdb, h⟩ := any_toOption_iff.1 h
  obtain ⟨full, hfull, h⟩ := any_toOption_iff.1 h
  rw [Bool.and_eq_true, decide_eq_true_eq] at h
  exact ⟨p, db, full, hp, hdb, hfull, h.1, h.2⟩

/-- No image is wanted, so the task that makes images is left out; the paragraph and
    the recipe are derived as they would be with it. -/
theorem derive_whole_recipe : ∃ p db full, Demo.planner 8 = .ok p ∧
    Demo.recipeQuery.compile p.registry p.catalog = .ok db ∧
      Demo.recipeQuery.compileWhole p.registry p.catalog = .ok full ∧ db.size < full.size ∧
        ∃ ds ds', (Session.start full p.maxDepth).derive.1 = .ok ds ∧
          (Session.start db p.maxDepth).derive.1 = .ok ds' ∧
            spelledPairs full ds = spelledPairs db ds' ∧
              Plan.ofDerivations full ds = Plan.ofDerivations db ds' := by
  have hprunes : Demo.prunes Demo.recipeQuery = true := by decide +kernel
  obtain ⟨p, db, full, hp, hdb, hfull, hsize, hok⟩ := Demo.prunes_eq_true hprunes
  obtain ⟨full', hfull', hall⟩ := Query.derive_whole hdb
  cases hfull.symm.trans hfull'
  refine ⟨p, db, full, hp, hdb, hfull, hsize, (hall p.maxDepth).resolve_left ?_⟩
  rintro ⟨e, -, he⟩
  rw [he] at hok
  cases hok

end HornPlan
