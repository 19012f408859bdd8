/-
  HornPlan/Proofs/Plan/SingleAssignment.lean
  ==========================================
  **Plans never overwrite what has been used.**

  A plan keeps values in slots, and a slot may be written more than once: every
  descriptor of an instance lays its result over what is there.  In the plan of a solved
  query this does no harm.  Tasks write each to a slot of their own; descriptors write to
  instances that are not held; and nothing is written that has been read before
  (`Plan.SingleAssignment`).

  The reason is the order of the walk.  What writes the slot that a node reads proves
  the first child of the node, or is a property of the instance that it proves; so it is
  below the node (`below_of_writes`), and comes before it.

  Of any plan of this form it holds that a run changes no value that it has started from,
  and none that a step has read (`SingleAssignment.stable`).
-/
import HornPlan.Proofs.Plan.Course
import HornPlan.Proofs.Plan.Execution

namespace HornPlan

open Query HornPlan.Derivation

/-! ### Plans in single-assignment form -/

namespace Plan

/-- Is every slot settled before it is read? -/
structure SingleAssignment (p : Plan) (held : List Tuple) : Prop where
  /-- A task makes any instance of a type. -/
  task : ∀ s ∈ p.steps, s.kind = .task → s.output.isWildcard = true
  /-- No two tasks write the same slot. -/
  once : p.steps.Pairwise fun s t => s.kind = .task → t.kind = .task → s.output ≠ t.output
  /-- A descriptor describes an instance that is not held. -/
  descriptor : ∀ s ∈ p.steps, ∀ name, s.kind = .descriptor name →
    s.output.isWildcard = false ∧ s.output ∉ held
  /-- No step writes what it has read itself. -/
  apart : ∀ s ∈ p.steps, s.output ≠ s.input
  /-- No step writes what has been read before. -/
  settled : p.steps.Pairwise fun s t => t.output ≠ s.input

/-- Does a run from a seed leave what is in the seed and what has been read alone? -/
structure Stable (p : Plan) (seed : Store) : Prop where
  /-- After any steps of the plan, what was in the seed is as it was. -/
  seeded : ∀ {done rest store}, p.steps = done ++ rest →
    (runSteps 0 done seed).2 = .ok store →
      ∀ t ∈ seed.map Prod.fst, store.lookup t = seed.lookup t
  /-- The value that a step reads is still there after it and after any further steps. -/
  read : ∀ {done s more rest store store'}, p.steps = done ++ s :: (more ++ rest) →
    (runSteps 0 done seed).2 = .ok store →
      (runSteps done.length (s :: more) store).2 = .ok store' →
        store'.lookup s.input = store.lookup s.input

/-- A step leaves the slots alone that it does not write. -/
theorem lookup_of_run {i : Nat} {s : Step} {store store' : Store} (h : s.run i store = .ok store')
    {t : Tuple} (ht : t ≠ s.output) : store'.lookup t = store.lookup t := by
  obtain ⟨value, result, -, -, -, rfl⟩ := Step.run_eq_ok_iff.1 h
  exact s.lookup_keep_of_ne result store ht

/-- Steps leave the slots alone that none of them writes. -/
theorem lookup_of_runSteps {steps : List Step} {t : Tuple} : ∀ {i store store'},
    (∀ s ∈ steps, t ≠ s.output) → (runSteps i steps store).2 = .ok store' →
      store'.lookup t = store.lookup t := by
  induction steps with
  | nil =>
    intro i store store' _ h
    cases h
    rfl
  | cons s rest ih =>
    intro i store store' hsteps h
    rw [runSteps] at h
    rcases hrun : s.run i store with e | next
    · rw [hrun] at h
      cases h
    · rw [hrun] at h
      rw [ih (fun u hu => hsteps u (List.mem_cons_of_mem _ hu)) h,
        lookup_of_run hrun (hsteps s List.mem_cons_self)]

/-- **In single-assignment form nothing is overwritten that has been used.** -/
theorem SingleAssignment.stable {p : Plan} {seed : Store}
    (h : p.SingleAssignment (seed.map Prod.fst))
    (hconcrete : ∀ t ∈ seed.map Prod.fst, t.isWildcard = false) : p.Stable seed where
  seeded := by
    intro done rest store hsteps hrun t ht
    refine lookup_of_runSteps (fun s hs => ?_) hrun
    have hmem : s ∈ p.steps := hsteps ▸ List.mem_append_left _ hs
    rintro rfl
    rcases hkind : s.kind with _ | name
    · have hwild := h.task s hmem hkind
      rw [hconcrete _ ht] at hwild
      cases hwild
    · exact (h.descriptor s hmem name hkind).2 ht
  read := by
    intro done s more rest store store' hsteps _ hrun
    refine lookup_of_runSteps (fun u hu heq => ?_) hrun
    rcases List.mem_cons.1 hu with rfl | hu
    · exact h.apart u (hsteps ▸ List.mem_append_right _ List.mem_cons_self) heq.symm
    · have hsettled := h.settled
      rw [hsteps, List.pairwise_append, List.pairwise_cons] at hsettled
      exact hsettled.2.1.1 u (List.mem_append_left _ hu) heq.symm

end Plan

/-! ### What writes the slots that are read -/

namespace Derivation

variable {db : Database} {ds : List Derivation}

/-- What comes later proves something else, and is not below what comes before. -/
theorem Genuine.pairwise_firsts (hds : Genuine db ds) :
    (firsts ds).Pairwise fun n m => n.atom ≠ m.atom ∧ ¬ m.Below n := by
  have hnodup := nodup_firsts ds
  rw [List.Nodup, List.pairwise_map] at hnodup
  refine hnodup.and (List.pairwise_iff_forall_sublist.2 fun {n m} hsub hbelow => ?_)
  obtain ⟨l₁, l₂, hl, hn, hm⟩ := List.cons_sublist_iff.1 hsub
  obtain ⟨before, after, rfl⟩ := List.append_of_mem hn
  have hsplit : firsts ds = before ++ n :: (after ++ l₂) := by
    rw [hl, List.append_assoc, List.cons_append]
  -- what is below comes before, so the atom would come up twice
  have hbefore := hds.below_firsts hsplit hbelow
  have hlater : m ∈ after ++ l₂ := List.mem_append_right _ (List.singleton_sublist.1 hm)
  have hatoms := nodup_firsts ds
  rw [hsplit, List.map_append, List.map_cons, List.nodup_append] at hatoms
  exact hatoms.2.2 _ (List.mem_map_of_mem hbefore) _
    (List.mem_cons_of_mem _ (List.mem_map_of_mem hlater)) rfl

variable {r : Registry} {c : Catalog} {q : Query} (hcomp : Compiled r c q db)
  (hds : Genuine db ds) (hroots : ∀ d ∈ ds, ∃ u, d.atom = .resource u)
include hcomp hds hroots

omit hroots in
/-- Nodes that prove different atoms do not run tasks for the same slot. -/
theorem output_ne_of_task {n m : Derivation} (hn : n ∈ nodesAll ds) (hm : m ∈ nodesAll ds)
    (hatom : n.atom ≠ m.atom) {s t : Step} (hs : step? db n = some s) (ht : step? db m = some t)
    (hkind : s.kind = .task) (hkind' : t.kind = .task) : s.output ≠ t.output := by
  have hproves : ∀ {k : Derivation} {u : Step}, k ∈ nodesAll ds → step? db k = some u →
      u.kind = .task → k.atom = .resource u.output := by
    intro k u hk hu hkind
    rcases ((hcomp.form_of_mem hds hk).of_step hu).2.2 with ⟨-, -, hatom, -⟩ | ⟨-, ⟨name, hd⟩, -⟩
    · exact hatom
    · cases hkind.symm.trans hd
  intro heq
  apply hatom
  rw [hproves hn hs hkind, hproves hm ht hkind', heq]

/-- **What writes the slot in which a proved tuple is found is part of the proof.** -/
theorem mem_nodes_of_writes {n m : Derivation} (hn : n ∈ nodesAll ds) {t : Tuple}
    (ht : n.atom = .resource t) (hm : m ∈ nodesAll ds) (hw : m.writes db n.home = true) :
    m ∈ n.nodes := by
  obtain ⟨hsource, hcases⟩ := source_cases hcomp hds hn ht
  have hnode := mem_nodesAll_of_mem_nodes hn hsource
  rcases hcases with ⟨i, hi, -, hatom, -⟩ | ⟨-, hatom⟩ |
    ⟨e, j, aggregate, heq, -, -, -, hname, haggregate, -⟩
  · -- a held instance is not written
    obtain ⟨s, hs, hout⟩ := writes_iff.1 hw
    have hheld : n.home ∈ q.inputTuples := by
      rw [home, hatom]
      exact hi
    exact absurd (hout ▸ hheld) (output_not_input hcomp hds hroots hm hs)
  · -- the slot of any instance is written by what proves it
    have hhome : n.home = t.generalize := by
      rw [home, hatom]
      rfl
    have hmatom := atom_of_writes hcomp hds hm (t := t.generalize) rfl (hhome ▸ hw)
    rw [hds.unique m hm n.source hnode (hmatom.trans hatom.symm)]
    exact hsource
  · -- the slot of a described instance is written by its properties, below its aggregate
    have hhome : n.home = e.subject := by
      rw [home, heq]
      rfl
    rw [hhome, writes_eq_describes hcomp hds hm hname.2, describes_iff] at hw
    obtain ⟨p, hp⟩ := hw
    have hroot : m ∉ ds := by
      intro hmem
      obtain ⟨u, hu⟩ := hroots m hmem
      cases hp.symm.trans hu
    obtain ⟨k, hk, hchild⟩ := exists_parent_of_mem hm hroot
    have hkatom := (hcomp.form_of_mem hds hk).aggregate_of_property hchild hp
    have hbelow : aggregate ∈ n.nodes := by
      refine mem_nodes_of_mem_children ?_ hsource
      rw [heq]
      exact List.mem_cons_self
    rw [hds.unique k hk aggregate (mem_nodesAll_of_mem_nodes hn hbelow)
      (hkatom.trans haggregate.symm)] at hchild
    exact mem_nodes_of_mem_children hchild hbelow

/-- **What writes the slot that a node reads is below the node.** -/
theorem below_of_writes {n m : Derivation} (hn : n ∈ nodesAll ds) {s : Step}
    (hs : step? db n = some s) (hm : m ∈ nodesAll ds) (hw : m.writes db s.input = true) :
    m.Below n := by
  obtain ⟨⟨first, rest, t, hchildren, ht, -, hin⟩, -⟩ := (hcomp.form_of_mem hds hn).of_step hs
  have hfirst : first ∈ n.children := hchildren ▸ List.mem_cons_self
  have hnode := mem_nodesAll_of_mem_nodes hn (below_of_mem_children hfirst).mem_nodes
  exact ⟨first, hfirst, mem_nodes_of_writes hcomp hds hroots hnode ht hm (hin ▸ hw)⟩

/-- **The steps that proofs give are in single-assignment form.** -/
theorem singleAssignment_of_steps {p : Plan} (hsteps : p.steps = (firsts ds).filterMap (step? db)) :
    p.SingleAssignment q.inputTuples := by
  have hnode : ∀ {s}, s ∈ p.steps → ∃ n ∈ nodesAll ds, step? db n = some s := by
    intro s hs
    rw [hsteps] at hs
    obtain ⟨n, hn, hs⟩ := List.mem_filterMap.1 hs
    exact ⟨n, hds.mem_firsts.1 hn, hs⟩
  refine ⟨?_, ?_, ?_, ?_, ?_⟩
  · intro s hs hkind
    obtain ⟨n, hn, hs⟩ := hnode hs
    rcases ((hcomp.form_of_mem hds hn).of_step hs).2.2 with ⟨-, -, -, hwild⟩ | ⟨-, ⟨name, hd⟩, -⟩
    · exact hwild
    · cases hkind.symm.trans hd
  · rw [hsteps, List.pairwise_filterMap]
    refine hds.pairwise_firsts.imp_of_mem fun {n m} hn hm hlater s hs t ht => ?_
    exact output_ne_of_task hcomp hds (hds.mem_firsts.1 hn) (hds.mem_firsts.1 hm) hlater.1 hs ht
  · intro s hs name hkind
    obtain ⟨n, hn, hs⟩ := hnode hs
    refine ⟨?_, output_not_input hcomp hds hroots hn hs⟩
    rcases ((hcomp.form_of_mem hds hn).of_step hs).2.2 with ⟨-, htask, -⟩ | ⟨-, -, -, hconcrete⟩
    · cases hkind.symm.trans htask
    · exact hconcrete
  · intro s hs heq
    obtain ⟨n, hn, hs⟩ := hnode hs
    have hbelow := below_of_writes hcomp hds hroots hn hs hn (writes_iff.2 ⟨s, hs, heq⟩)
    exact hds.acyclic n hn n hbelow rfl
  · rw [hsteps, List.pairwise_filterMap]
    refine hds.pairwise_firsts.imp_of_mem fun {n m} hn hm hlater s hs t ht heq => ?_
    exact hlater.2 (below_of_writes hcomp hds hroots (hds.mem_firsts.1 hn) hs
      (hds.mem_firsts.1 hm) (writes_iff.2 ⟨t, ht, heq⟩))

end Derivation

/-! ### Whole plans -/

/-- **The plan of a solved query is in single-assignment form**, so a run of it changes no
    value that it starts from, and none that a step has read. -/
theorem solve_singleAssignment (p : Planner) (q : Query) (sol : Solution)
    (h : p.solve q = .ok sol) :
    sol.plan.SingleAssignment q.inputTuples ∧ sol.plan.Stable sol.database.seed := by
  obtain ⟨hcomp, hds, -, hatoms, hplan⟩ := Planner.solve_eq_ok h
  obtain ⟨-, -, hsteps, -⟩ :=
    Plan.ofDerivations_eq_ok hds hcomp.readsFirst (fun td htd => (hatoms td htd).1) hplan
  have hroots : ∀ d ∈ sol.derivations.map Prod.snd, ∃ u, d.atom = .resource u := by
    intro d hd
    obtain ⟨td, htd, rfl⟩ := List.mem_map.1 hd
    exact ⟨td.1, (hatoms td htd).1⟩
  have hform := singleAssignment_of_steps hcomp hds hroots hsteps
  have hseed : sol.database.seed.map Prod.fst = q.inputTuples := hcomp.inputs
  refine ⟨hform, Plan.SingleAssignment.stable (hseed ▸ hform) fun t ht => ?_⟩
  exact (hcomp.held t (hseed ▸ ht)).2

theorem solve_singleAssignment_recipe : ∃ p sol, Demo.planner 8 = .ok p ∧
    p.solve Demo.recipeQuery = .ok sol ∧ sol.plan.steps ≠ [] ∧
      sol.plan.SingleAssignment Demo.recipeQuery.inputTuples ∧
        sol.plan.Stable sol.database.seed := by
  obtain ⟨p, sol, hp, hs, hsteps, -⟩ := Demo.solve_recipeQuery
  exact ⟨p, sol, hp, hs, hsteps, solve_singleAssignment p Demo.recipeQuery sol hs⟩

end HornPlan
