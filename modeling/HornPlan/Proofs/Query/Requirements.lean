/-
  HornPlan/Proofs/Query/Requirements.lean
  =======================================
  **What the completion of a resource rests on.**

  An entry of the resources section asks for properties and for other instances.  It
  reaches the database as one clause for the aggregate of its instance, with all that
  the entry asks for as the body (`Reading.body_of_aggregate`), and a proof by
  completion rests on that aggregate (`Form.of_completion`).  So whatever completes an
  instance proves all that some entry for it asks for.

  It does so for one entry.  Entries for the same instance become clauses for the same
  aggregate, of which a proof takes one; they are alternatives, where two descriptors
  of one entry are asked for together.  `solve_covers` says what a completion covers
  then, and `Demo.glazeQuery_not_covered` that it need not cover the other entries.

  Specification, section 8 (the scenario of `all_dependencies`).
-/
import HornPlan.Proofs.Plan.Soundness

namespace HornPlan

open HornPlan.Derivation

/-- All that an entry asks for: properties, and the instances that it depends on. -/
def Entry.requirements (e : Entry ResourceSpec) : List Atom :=
  e.properties ++ e.dependencies.map .resource

def Query.entriesFor (q : Query) (t : Tuple) : List (Entry ResourceSpec) :=
  q.resources.filter (·.subject = t)

theorem Query.mem_entriesFor {q : Query} {t : Tuple} {e : Entry ResourceSpec} :
    e ∈ q.entriesFor t ↔ e ∈ q.resources ∧ e.subject = t := by
  rw [Query.entriesFor, List.mem_filter, decide_eq_true_eq]

/-- Is all that an entry asks for proved below a node? -/
def Derivation.Covers (n : Derivation) (e : Entry ResourceSpec) : Prop :=
  ∀ a ∈ e.requirements, ∃ m : Derivation, m.Below n ∧ m.atom = a

instance (n : Derivation) (e : Entry ResourceSpec) : Decidable (n.Covers e) :=
  decidable_of_iff (∀ a ∈ e.requirements, ∃ m ∈ n.children.flatMap nodes, m.atom = a) <| by
    simp only [Covers, Below, List.mem_flatMap]

namespace Query

variable {r : Registry} {c : Catalog} {q : Query} {db : Database}

/-! ### The aggregate of an entry -/

theorem body_of_compileResource {e : Entry ResourceSpec} {u : Tuple} {k : Contribution}
    (h : compileResource r c e = .ok (u, k)) {cl : Clause} (hcl : cl ∈ k.clauses) {t : Tuple}
    (hhead : cl.head = .allDependencies t) :
    e.subject = t ∧ cl.body = e.requirements ∧ e.requirements ≠ [] := by
  obtain ⟨-, -, bound, hbound, -, hclauses, -⟩ := compileResource_eq_ok h
  rw [hclauses] at hcl
  rcases List.mem_append.1 hcl with hcl | hcl
  · -- the clauses of descriptors have properties for heads
    obtain ⟨b, hb, hcl⟩ := List.mem_flatMap.1 hcl
    obtain ⟨descriptor, -, hb⟩ := exists_of_map_eq hbound hb
    obtain ⟨_, _, _, -, -, -, -, rfl⟩ := mem_bindDescriptor (compileDescriptor_eq_ok hb).2 hcl
    cases hhead
  · unfold completionClauses at hcl
    split at hcl
    · rw [List.mem_singleton.1 hcl] at hhead
      cases hhead
    · rename_i hsome
      rcases List.mem_cons.1 hcl with rfl | hcl
      · injection hhead with hsubject
        refine ⟨hsubject, rfl, fun hnil => hsome ?_⟩
        obtain ⟨hprops, hdeps⟩ := List.append_eq_nil_iff.1 hnil
        rw [hprops, hdeps]
        exact ⟨rfl, rfl⟩
      · rw [List.mem_singleton.1 hcl] at hhead
        cases hhead

/-- **A clause for an aggregate asks for all that one entry asks for.** -/
theorem Reading.body_of_aggregate (s : Reading r c q) {cl : Clause}
    (hcl : cl ∈ s.database.clauses) {t : Tuple} (hhead : cl.head = .allDependencies t) :
    ∃ e ∈ q.entriesFor t, cl.body = e.requirements ∧ e.requirements ≠ [] := by
  rcases s.mem_clauses hcl with ⟨i, -, rfl | rfl⟩ | ⟨d, hd, hcl⟩ | ⟨u, -, rfl⟩ | ⟨task, -, rfl⟩
  · cases hhead
  · cases hhead
  · obtain ⟨e, he, hread⟩ := exists_of_map_eq s.declared_eq hd
    obtain ⟨hsubject, hbody⟩ := body_of_compileResource hread hcl hhead
    exact ⟨e, mem_entriesFor.2 ⟨he, hsubject⟩, hbody⟩
  · cases hhead
  · cases hhead

/-! ### Completed instances -/

theorem Form.of_completion {n : Derivation} (h : Form r c q db n) (hkind : n.kind = .completion)
    {t : Tuple} (ht : n.atom = .resource t) :
    ∃ aggregate ∈ n.children, aggregate.atom = .allDependencies t := by
  cases h with
  | produced _ _ _ _ _ haggregate _ _ =>
    cases ht
    exact ⟨_, List.mem_cons_of_mem _ List.mem_cons_self, haggregate⟩
  | described _ _ _ haggregate _ _ =>
    cases ht
    exact ⟨_, List.mem_cons_self, haggregate⟩
  | _ => cases hkind

section Genuine

variable {ds : List Derivation} (h : q.compile r c = .ok db) (hds : Genuine db ds)
include h hds

/-- A node that proves an aggregate has a child for all that one entry asks for. -/
theorem children_of_aggregate {n : Derivation} (hn : n ∈ nodesAll ds) {t : Tuple}
    (ha : n.atom = .allDependencies t) :
    ∃ e ∈ q.entriesFor t, n.children.map Derivation.atom = e.requirements ∧
      e.requirements ≠ [] := by
  have hkind := (((compiled h).form_of_mem hds hn).of_aggregate ha).1
  obtain ⟨cl, hget, hhead, -, hbody⟩ := (hds.justified n hn).clause
  obtain ⟨s, -, rfl⟩ := compile_eq_ok.1 h
  obtain ⟨e, he, hrequired, hsome⟩ :=
    s.body_of_aggregate (List.mem_of_getElem? hget) (hhead.trans ha)
  refine ⟨e, he, ?_, hsome⟩
  rw [← hrequired]
  exact hbody (by rw [hkind]; exact nofun)

/-- **A node that completes an instance covers an entry that asks for something.** -/
theorem covers_of_completion {n : Derivation} (hn : n ∈ nodesAll ds) (hkind : n.kind = .completion)
    {t : Tuple} (ht : n.atom = .resource t) :
    ∃ e ∈ q.entriesFor t, e.requirements ≠ [] ∧ n.Covers e := by
  obtain ⟨aggregate, hchild, ha⟩ := ((compiled h).form_of_mem hds hn).of_completion hkind ht
  obtain ⟨e, he, hchildren, hsome⟩ := children_of_aggregate h hds
    (mem_nodesAll_of_mem_nodes hn (below_of_mem_children hchild).mem_nodes) ha
  refine ⟨e, he, hsome, ?_⟩
  intro a hmem
  rw [← hchildren] at hmem
  obtain ⟨m, hm, hatom⟩ := List.mem_map.1 hmem
  exact ⟨m, ⟨aggregate, hchild, (below_of_mem_children hm).mem_nodes⟩, hatom⟩

end Genuine

end Query

theorem Derivation.Covers.mono {n : Derivation} {e e' : Entry ResourceSpec} (h : n.Covers e)
    (hsub : e'.requirements ⊆ e.requirements) : n.Covers e' := fun a ha => h a (hsub ha)

/-! ### Solved queries -/

theorem Planner.compile_of_solve {p : Planner} {q : Query} {sol : Solution}
    (h : p.solve q = .ok sol) : q.compile p.registry p.catalog = .ok sol.database := by
  obtain ⟨db, hdb, h⟩ := bind_eq_ok.1 h
  obtain ⟨ds, -, h⟩ := bind_eq_ok.1 h
  obtain ⟨plan, -, h⟩ := bind_eq_ok.1 h
  cases h
  exact hdb

/-- **An instance that is completed has all that some entry for it asks for.**  It has
    all that an entry asks for if no other that asks for something leaves out any of
    it; in particular if there is no other. -/
theorem solve_covers (p : Planner) (q : Query) (sol : Solution) (h : p.solve q = .ok sol) :
    ∀ td ∈ sol.derivations, ∀ n ∈ td.2.nodes, n.kind = .completion →
      ∀ t, n.atom = .resource t →
        (∃ e ∈ q.entriesFor t, e.requirements ≠ [] ∧ n.Covers e) ∧
          ∀ e ∈ q.entriesFor t,
            (∀ e' ∈ q.entriesFor t, e'.requirements ≠ [] → e.requirements ⊆ e'.requirements) →
              n.Covers e := by
  intro td htd n hn hkind t ht
  obtain ⟨-, hds, -, hatoms, -⟩ := Planner.solve_eq_ok h
  have hnode := mem_nodesAll_of_mem_nodes (hatoms td htd).2 hn
  obtain ⟨e, he, hsome, hcovers⟩ :=
    Query.covers_of_completion (Planner.compile_of_solve h) hds hnode hkind ht
  refine ⟨⟨e, he, hsome, hcovers⟩, ?_⟩
  intro e' _ hleast
  exact hcovers.mono (hleast e he hsome)

/-! ### A recipe that is declared once, and one that is declared twice -/

namespace Demo

/-- A recipe with a title, and once more with a glaze, of which the catalog knows
    nothing. -/
def glazeQuery : Query :=
  ((Query.empty.withInput "topic" 1 [("topic", .text "leek")]).withResource "recipe"
      ((ResourceSpec.ofId 2).describe "title" [("of", "topic", 1)])).withResource "recipe"
      ((ResourceSpec.ofId 2).describe "glaze" [("of", "topic", 1)])
    |>.withOutput "recipe" 2

/-- Is something completed in the proofs of a solved query that passes a test? -/
def completes (q : Query) (test : Derivation → Bool) : Bool :=
  (planner 8).toOption.any fun p =>
    (p.solve q).toOption.any fun sol =>
      sol.derivations.any fun td => td.2.nodes.any fun n => n.kind = .completion && test n

theorem completes_eq_true {q : Query} {test : Derivation → Bool} (h : completes q test = true) :
    ∃ p sol, planner 8 = .ok p ∧ p.solve q = .ok sol ∧ ∃ td ∈ sol.derivations,
      ∃ n ∈ td.2.nodes, n.kind = .completion ∧ test n = true := by
  obtain ⟨p, hp, h⟩ := any_toOption_iff.1 h
  obtain ⟨sol, hs, h⟩ := any_toOption_iff.1 h
  simp only [List.any_eq_true, Bool.and_eq_true, decide_eq_true_eq] at h
  exact ⟨p, sol, hp, hs, h⟩

end Demo

/-- The recipe covers the only entry for it. -/
theorem solve_covers_recipe :
    ∃ p sol, Demo.planner 8 = .ok p ∧ p.solve Demo.recipeQuery = .ok sol ∧
      ∃ td ∈ sol.derivations, ∃ n ∈ td.2.nodes, n.kind = .completion ∧
        n.atom = .resource (Query.instanceOf "recipe" 2) ∧
          ∀ e ∈ Demo.recipeQuery.resources, n.Covers e := by
  have hall : Demo.completes Demo.recipeQuery
      (fun n => n.atom = .resource (Query.instanceOf "recipe" 2)) = true := by decide +kernel
  obtain ⟨p, sol, hp, hs, td, htd, n, hn, hkind, hatom⟩ := Demo.completes_eq_true hall
  have hatom := of_decide_eq_true hatom
  have hsubject : ∀ e ∈ Demo.recipeQuery.resources, e.subject = Query.instanceOf "recipe" 2 := by
    decide
  have honly : ∀ e ∈ Demo.recipeQuery.entriesFor (Query.instanceOf "recipe" 2),
      ∀ e' ∈ Demo.recipeQuery.entriesFor (Query.instanceOf "recipe" 2), e'.requirements ≠ [] →
        e.requirements ⊆ e'.requirements := by decide
  refine ⟨p, sol, hp, hs, td, htd, n, hn, hkind, hatom, ?_⟩
  intro e he
  have hentry := Query.mem_entriesFor.2 ⟨he, hsubject e he⟩
  exact (solve_covers p Demo.recipeQuery sol hs td htd n hn hkind _ hatom).2 e hentry
    (honly e hentry)

/-- A recipe that is declared twice is completed without what one of the entries asks
    for. -/
theorem Demo.glazeQuery_not_covered :
    ∃ p sol, planner 8 = .ok p ∧ p.solve glazeQuery = .ok sol ∧
      ∃ td ∈ sol.derivations, ∃ n ∈ td.2.nodes, n.kind = .completion ∧
        ∃ e ∈ glazeQuery.resources, n.atom = .resource e.subject ∧ ¬ n.Covers e := by
  have hall : completes glazeQuery (fun n => decide
      (∃ e ∈ glazeQuery.resources, n.atom = .resource e.subject ∧ ¬ n.Covers e)) = true := by
    decide +kernel
  obtain ⟨p, sol, hp, hs, td, htd, n, hn, hkind, h⟩ := completes_eq_true hall
  exact ⟨p, sol, hp, hs, td, htd, n, hn, hkind, of_decide_eq_true h⟩

end HornPlan
