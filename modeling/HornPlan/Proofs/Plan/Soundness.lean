/-
  HornPlan/Proofs/Plan/Soundness.lean
  ===================================
  **The plan of a solved query can run.**

  Where the value of a proved tuple is found depends on the form of its proof.  A held
  instance has its own slot, and so has what a task makes.  What rests on either is
  found where that is.  What remains are the instances that consist of their
  properties: these have slots of their own, which the descriptors fill
  (`source_cases`).

  So below a proof of a tuple there is a step that fills the slot of the tuple, unless
  that slot is filled at the start (`filled_home`).  Since a plan has the steps below a
  node before the step of the node, every step finds its input (`solve_sound`).

  Specification, section 8 (soundness): `solve` yields plans that verify.
-/
import HornPlan.Demo
import HornPlan.Proofs.Plan.Verification
import HornPlan.Proofs.Query.Form
import Mathlib.Data.List.Nodup

namespace HornPlan

open Query HornPlan.Derivation

variable {r : Registry} {c : Catalog} {q : Query} {db : Database}

/-! ### Where values are found -/

namespace Derivation

theorem source_borrowed {a : Atom} {i : Nat} {k : ClauseKind} {first : Derivation}
    {rest : List Derivation} {t : Tuple}
    (hk : k = .generalization ∨ k = .assignment ∨ k = .completion)
    (hfirst : first.atom = .resource t) : source ⟨a, i, k, first :: rest⟩ = first.source := by
  have hborrows : borrows k first.atom = true := by
    rw [hfirst]
    exact decide_eq_true ⟨hk, rfl⟩
  rw [source, if_pos hborrows]

theorem source_own {a : Atom} {i : Nat} {k : ClauseKind} {first : Derivation}
    {rest : List Derivation}
    (h : first.atom.asResource? = none ∨
      k ≠ .generalization ∧ k ≠ .assignment ∧ k ≠ .completion) :
    source ⟨a, i, k, first :: rest⟩ = ⟨a, i, k, first :: rest⟩ := by
  have hborrows : ¬ borrows k first.atom = true := by
    intro hb
    obtain ⟨hk, hres⟩ := of_decide_eq_true hb
    rcases h with h | ⟨hg, ha, hc⟩
    · rw [h] at hres
      cases hres
    · rcases hk with hk | hk | hk
      · exact hg hk
      · exact ha hk
      · exact hc hk
  rw [source, if_neg hborrows]

end Derivation

theorem Query.Form.source_of_task {n : Derivation} (h : Form r c q db n) (hkind : n.kind = .task) :
    n.source = n := by
  cases h with
  | task _ _ _ => exact source_own (Or.inr ⟨nofun, nofun, nofun⟩)
  | _ => cases hkind

/-- An instance that is declared once is declared by one entry. -/
theorem Query.eq_of_subject_eq (hunique : (q.resources.map fun e => (e.type, e.spec.id)).Nodup)
    {e e' : Entry ResourceSpec} (he : e ∈ q.resources) (he' : e' ∈ q.resources)
    (hname : Named r e.subject) (h : e.subject = e'.subject) : e = e' := by
  apply List.inj_on_of_nodup_map hunique he he'
  have htype : e.type = e'.type := congrArg Tuple.type h
  have hid : InstanceId.ofNumber? e.spec.id = InstanceId.ofNumber? e'.spec.id :=
    congrArg Tuple.id h
  have hne : e.spec.id ≠ 0 := by
    intro hzero
    have hwild := hname.2
    simp [Entry.subject, instanceOf, InstanceId.ofNumber?, hzero, Tuple.isWildcard] at hwild
  have hnum : e.spec.id = e'.spec.id := by
    unfold InstanceId.ofNumber? at hid
    rw [dif_pos hne] at hid
    split at hid
    · exact congrArg InstanceId.value (Option.some.inj hid)
    · cases hid
  rw [htype, hnum]

/-- What comes before a step of some nodes is the steps of the nodes before. -/
theorem split_steps {l : List Derivation} {before after : List Step} {s : Step}
    (h : l.filterMap (step? db) = before ++ s :: after) :
    ∃ l₁ n l₂, l = l₁ ++ n :: l₂ ∧ step? db n = some s ∧ l₁.filterMap (step? db) = before := by
  obtain ⟨l₁, l₂, rfl, hbefore, h⟩ := List.filterMap_eq_append_iff.1 h
  obtain ⟨skipped, n, l₂, rfl, hskipped, hn, -⟩ := List.filterMap_eq_cons_iff.1 h
  refine ⟨l₁ ++ skipped, n, l₂, by rw [List.append_assoc], hn, ?_⟩
  rw [List.filterMap_append, hbefore, List.filterMap_eq_nil_iff.2 hskipped, List.append_nil]

section Genuine

variable {ds : List Derivation} (hcomp : Compiled r c q db) (hds : Genuine db ds)

include hcomp hds

/-- The value of a proved tuple is a held one, one that a task makes, or one that
    consists of properties. -/
theorem source_cases {n : Derivation} (hn : n ∈ nodesAll ds) {t : Tuple}
    (ht : n.atom = .resource t) :
    n.source ∈ n.nodes ∧
      ((∃ s ∈ q.inputTuples, n.source.kind = .inputFact ∧ n.source.atom = .resource s ∧
          s.type = t.type ∧ (t.isWildcard = false → s = t)) ∨
        (n.source.kind = .task ∧ n.source.atom = .resource t.generalize) ∨
        ∃ e i aggregate, n.source = ⟨.resource e.subject, i, .completion, [aggregate]⟩ ∧
          t = e.subject ∧ e ∈ q.resources ∧ e.subject ∉ q.inputTuples ∧ Named r e.subject ∧
          aggregate.atom = .allDependencies e.subject ∧ e.properties ≠ []) := by
  -- a node that rests on a task has the value of the task
  have hmade : ∀ {first : Derivation}, first ∈ n.children → first.kind = .task →
      n.source = first.source → first.atom = .resource t.generalize →
        n.source ∈ n.nodes ∧ n.source.kind = .task ∧ n.source.atom = .resource t.generalize := by
    intro first hfirst hkind hsource hatom
    have hmem := (below_of_mem_children hfirst).mem_nodes
    have hform := hcomp.form_of_mem hds (mem_nodesAll_of_mem_nodes hn hmem)
    rw [hsource, hform.source_of_task hkind]
    exact ⟨hmem, hkind, hatom⟩
  cases hcomp.form_of_mem hds hn with
  | fact hmem _ _ =>
    cases ht
    exact ⟨self_mem_nodes _, Or.inl ⟨t, hmem, rfl, rfl, rfl, fun _ => rfl⟩⟩
  | task _ _ _ =>
    cases ht
    rw [source_own (k := .task) (Or.inr ⟨nofun, nofun, nofun⟩)]
    exact ⟨self_mem_nodes _, Or.inr (Or.inl ⟨rfl, rfl⟩)⟩
  | @generalization s i j hmem _ =>
    cases ht
    rw [source_borrowed (Or.inl rfl) rfl]
    refine ⟨(below_of_mem_children List.mem_cons_self).mem_nodes,
      Or.inl ⟨s, hmem, rfl, rfl, rfl, fun h => nomatch h⟩⟩
  | assignment _ _ hfirst hkind _ =>
    cases ht
    obtain ⟨hmem, hmade⟩ := hmade List.mem_cons_self hkind
      (source_borrowed (Or.inr (Or.inl rfl)) hfirst) hfirst
    exact ⟨hmem, Or.inr (Or.inl hmade)⟩
  | produced _ _ _ hfirst hkind _ _ _ =>
    cases ht
    obtain ⟨hmem, hmade⟩ := hmade List.mem_cons_self hkind
      (source_borrowed (Or.inr (Or.inr rfl)) hfirst) hfirst
    exact ⟨hmem, Or.inr (Or.inl hmade)⟩
  | described he hnot hname haggregate hprops _ =>
    cases ht
    rw [source_own (Or.inl (by rw [haggregate]; rfl))]
    exact ⟨self_mem_nodes _,
      Or.inr (Or.inr ⟨_, _, _, rfl, rfl, he, hnot, hname, haggregate, hprops⟩)⟩
  | allDependencies _ _ _ _ _ _ => cases ht
  | descriptor _ _ _ _ _ _ _ _ _ => cases ht

/-- The slot in which a tuple is found is of its type. -/
theorem home_type {n : Derivation} (hn : n ∈ nodesAll ds) {t : Tuple} (ht : n.atom = .resource t) :
    n.home.type = t.type := by
  apply type_home hcomp.formed _ ht
  exact fun m hm => hds.justified m (mem_nodesAll_of_mem_nodes hn hm)

/-- An aggregate over an entry with properties has a step that fills the slot of the
    entry, provided that instances are declared once. -/
theorem exists_descriptor (hunique : (q.resources.map fun e => (e.type, e.spec.id)).Nodup)
    {n : Derivation} (hn : n ∈ nodesAll ds) {e : Entry ResourceSpec} (he : e ∈ q.resources)
    (hname : Named r e.subject) (hprops : e.properties ≠ [])
    (ha : n.atom = .allDependencies e.subject) :
    ∃ m ∈ n.nodes, ∃ s, step? db m = some s ∧ s.output = e.subject := by
  obtain ⟨-, e', he', hsubject, deps, hchildren⟩ := (hcomp.form_of_mem hds hn).of_aggregate ha
  have heq : e' = e := (Query.eq_of_subject_eq hunique he he' hname hsubject.symm).symm
  subst heq
  -- the first property of the entry is proved by the first child
  obtain ⟨a, as, has⟩ := List.exists_cons_of_ne_nil hprops
  have hmem : a ∈ e'.properties := by
    rw [has]
    exact List.mem_cons_self
  obtain ⟨d, -, rfl⟩ := List.mem_map.1 hmem
  have hatom : Atom.property d.1 e'.subject ∈ n.children.map Derivation.atom := by
    rw [hchildren]
    exact List.mem_append_left _ hmem
  obtain ⟨m, hm, hatom⟩ := List.mem_map.1 hatom
  have hm := (below_of_mem_children hm).mem_nodes
  obtain ⟨_, _, _, _, _, _, _, _, _, hstep⟩ :=
    (hcomp.form_of_mem hds (mem_nodesAll_of_mem_nodes hn hm)).of_property hatom
  exact ⟨m, hm, _, hstep, rfl⟩

/-- **The slot of a proved tuple is filled at the start, or by a step below the proof.** -/
theorem filled_home (hunique : (q.resources.map fun e => (e.type, e.spec.id)).Nodup)
    {n : Derivation} (hn : n ∈ nodesAll ds) {t : Tuple} (ht : n.atom = .resource t) :
    (n.home ∈ q.inputTuples ∧ (t.isWildcard = false → n.home = t)) ∨
      ∃ m ∈ n.nodes, ∃ s, step? db m = some s ∧ s.output = n.home := by
  obtain ⟨hmem, hcases⟩ := source_cases hcomp hds hn ht
  have hnode := mem_nodesAll_of_mem_nodes hn hmem
  rcases hcases with ⟨s, hs, -, hatom, -, hconcrete⟩ | ⟨hkind, hatom⟩ |
    ⟨e, i, aggregate, hsource, -, he, -, hname, haggregate, hprops⟩
  · apply Or.inl
    rw [home, hatom]
    exact ⟨hs, hconcrete⟩
  · refine Or.inr ⟨n.source, hmem, ?_⟩
    rw [home]
    obtain ⟨task, first, -, -, hout, hstep⟩ := (hcomp.form_of_mem hds hnode).of_task hkind
    rw [hout]
    exact ⟨_, hstep, rfl⟩
  · apply Or.inr
    have hchild : aggregate ∈ n.source.children := by
      rw [hsource]
      exact List.mem_cons_self
    have haggr := mem_nodes_of_mem_children hchild hmem
    obtain ⟨m, hm, hstep⟩ := exists_descriptor hcomp hds hunique
      (mem_nodesAll_of_mem_nodes hn haggr) he hname hprops haggregate
    refine ⟨m, mem_nodes_trans hm haggr, ?_⟩
    rw [home, hsource]
    exact hstep

/-- Every proof rests on a held instance. -/
theorem exists_input {n : Derivation} (hn : n ∈ nodesAll ds) :
    ∃ m ∈ n.nodes, (input? m).isSome := by
  induction n with
  | node atom clause kind children ih =>
    cases children with
    | nil =>
      refine ⟨_, self_mem_nodes _, ?_⟩
      cases hcomp.form_of_mem hds hn with
      | fact _ _ _ => rfl
      | allDependencies _ _ _ hsome _ _ => exact absurd rfl hsome
    | cons first rest =>
      have hfirst := (below_of_mem_children (d := ⟨atom, clause, kind, first :: rest⟩)
        List.mem_cons_self).mem_nodes
      obtain ⟨m, hm, hinput⟩ := ih first List.mem_cons_self (mem_nodesAll_of_mem_nodes hn hfirst)
      exact ⟨m, mem_nodes_trans hm hfirst, hinput⟩

/-- What a proof rests on is an input of the document. -/
theorem input_mem {n : Derivation} (hn : n ∈ nodesAll ds) {t : Tuple} (ht : input? n = some t) :
    t ∈ q.inputTuples := by
  unfold input? at ht
  split at ht
  · rename_i hkind
    cases hcomp.form_of_mem hds hn with
    | fact hmem _ _ =>
      cases ht
      exact hmem
    | _ => cases hkind
  · cases ht

/-- The slot of a proved tuple is filled by the steps of the proofs. -/
theorem filled_of_proof (hunique : (q.resources.map fun e => (e.type, e.spec.id)).Nodup)
    {n : Derivation} (hn : n ∈ nodesAll ds) {t : Tuple} (ht : n.atom = .resource t) :
    Plan.Filled q.inputTuples ((firsts ds).filterMap (step? db)) n.home := by
  rcases filled_home hcomp hds hunique hn ht with ⟨hheld, -⟩ | ⟨m, hm, s, hs, hout⟩
  · exact Or.inl hheld
  · refine Or.inr ⟨s, List.mem_filterMap.2 ⟨m, ?_, hs⟩, hout⟩
    exact hds.mem_firsts.2 (mem_nodesAll_of_mem_nodes hn hm)

/-- The slot that a step of the proofs reads is filled by the steps before it. -/
theorem filled_before_step (hunique : (q.resources.map fun e => (e.type, e.spec.id)).Nodup)
    {before after : List Step} {s : Step}
    (hsplit : (firsts ds).filterMap (step? db) = before ++ s :: after) :
    Plan.Filled q.inputTuples before s.input := by
  obtain ⟨earlier, n, later, hfirsts, hs, rfl⟩ := split_steps hsplit
  have hn : n ∈ nodesAll ds :=
    hds.mem_firsts.1 (hfirsts ▸ List.mem_append_right _ List.mem_cons_self)
  obtain ⟨⟨first, rest, t, hchildren, ht, -, hin⟩, -⟩ := (hcomp.form_of_mem hds hn).of_step hs
  have hfirst : first ∈ n.children := hchildren ▸ List.mem_cons_self
  have hfirstNode := mem_nodesAll_of_mem_nodes hn (below_of_mem_children hfirst).mem_nodes
  rw [hin]
  rcases filled_home hcomp hds hunique hfirstNode ht with ⟨hheld, -⟩ | ⟨m, hm, s', hs', hout⟩
  · exact Or.inl hheld
  · -- what is below the node stands before it
    have hbefore : m ∈ earlier := hds.below_firsts hfirsts ⟨first, hfirst, hm⟩
    exact Or.inr ⟨s', List.mem_filterMap.2 ⟨m, hbefore, hs'⟩, hout⟩

/-- The first input that the proofs use is an input of the document. -/
theorem firstInput_mem {root : Derivation} (hroot : root ∈ nodesAll ds) (t : Tuple) :
    ((nodesAll ds).findSome? input?).getD t ∈ q.inputTuples := by
  obtain ⟨m, hm, hsome⟩ := exists_input hcomp hds hroot
  obtain ⟨u, hu⟩ : ∃ u, (nodesAll ds).findSome? input? = some u := by
    rw [← Option.isSome_iff_exists, List.findSome?_isSome_iff]
    exact ⟨m, mem_nodesAll_of_mem_nodes hroot hm, hsome⟩
  obtain ⟨n, hn, hnu⟩ := List.exists_of_findSome?_eq_some hu
  rw [hu, Option.getD_some]
  exact input_mem hcomp hds hn hnu

end Genuine

/-! ### Whole plans -/

/-- What a solved query consists of. -/
theorem Planner.solve_eq_ok {p : Planner} {sol : Solution} (h : p.solve q = .ok sol) :
    Compiled p.registry p.catalog q sol.database ∧
      Genuine sol.database (sol.derivations.map Prod.snd) ∧
      sol.derivations.map Prod.fst = q.outputTuples ∧
      (∀ td ∈ sol.derivations, td.2.atom = .resource td.1 ∧
        td.2 ∈ nodesAll (sol.derivations.map Prod.snd)) ∧
      Plan.ofDerivations sol.database sol.derivations = .ok sol.plan := by
  obtain ⟨db, hdb, h⟩ := bind_eq_ok.1 h
  obtain ⟨ds, hds, h⟩ := bind_eq_ok.1 h
  obtain ⟨plan, hplan, h⟩ := bind_eq_ok.1 h
  cases h
  have hcomp := compiled hdb
  obtain ⟨hgenuine, houtputs, hatoms⟩ := Session.derive_genuine hds
  refine ⟨hcomp, hgenuine, houtputs.trans hcomp.outputs, fun td htd => ⟨hatoms td htd, ?_⟩, hplan⟩
  exact mem_nodesAll.2 ⟨td.2, List.mem_map_of_mem htd, self_mem_nodes _⟩

/-- What is promised of a solved query. -/
structure Solution.Sound (q : Query) (sol : Solution) : Prop where
  /-- The plan can run from the inputs of the document. -/
  verified : sol.plan.verifyFrom q.inputTuples = .ok ()
  /-- The slot of every output is filled by the plan, unless it is that of an input. -/
  filled : ∀ o ∈ q.outputTuples, Plan.Filled q.inputTuples sol.plan.steps
    ((Plan.Walk.visitAll sol.database (sol.derivations.map Prod.snd) .start).slot o)
  input : sol.plan.input ∈ q.inputTuples
  output : ∃ last, q.outputTuples.getLast? = some last ∧ sol.plan.output.type = last.type
  /-- Nothing is done only if nothing is to be done. -/
  idle : sol.plan.steps = [] → ∀ o ∈ q.outputTuples, o ∈ q.inputTuples
  /-- A plan with one input can run from a value of its type. -/
  single : (∃ t, ∀ u ∈ q.inputTuples, u = t) → sol.plan.verify sol.plan.inputType = .ok ()

/-- **The plan of a solved query can run**, provided that the document declares no
    instance twice. -/
theorem solve_sound (p : Planner) (q : Query) (sol : Solution)
    (hunique : (q.resources.map fun e => (e.type, e.spec.id)).Nodup) (h : p.solve q = .ok sol) :
    sol.Sound q := by
  obtain ⟨hcomp, hds, houtputs, hatoms, hplan⟩ := Planner.solve_eq_ok h
  obtain ⟨last, hlast, hsteps, houtput, hinput⟩ :=
    Plan.ofDerivations_eq_ok hds hcomp.readsFirst (fun td htd => (hatoms td htd).1) hplan
  obtain ⟨hlastAtom, hlastNode⟩ := hatoms last (List.mem_of_getLast? hlast)
  have hverified : sol.plan.verifyFrom q.inputTuples = .ok () := by
    rw [Plan.verifyFrom_eq_ok, hsteps, houtput]
    exact ⟨fun before s after => filled_before_step hcomp hds hunique,
      filled_of_proof hcomp hds hunique hlastNode hlastAtom⟩
  have hin : sol.plan.input ∈ q.inputTuples := by
    rw [hinput]
    exact firstInput_mem hcomp hds hlastNode _
  refine ⟨hverified, ?_, hin, ⟨last.1, ?_, ?_⟩, ?_, ?_⟩
  · intro o ho
    obtain ⟨td, htd, rfl⟩ := List.mem_map.1 (houtputs ▸ ho)
    obtain ⟨hatom, hnode⟩ := hatoms td htd
    rw [(Plan.traced hds hcomp.readsFirst).slot_eq hnode hatom, hsteps]
    exact filled_of_proof hcomp hds hunique hnode hatom
  · rw [← houtputs, List.getLast?_map, hlast, Option.map_some]
  · rw [houtput]
    exact home_type hcomp hds hlastNode hlastAtom
  · intro hidle o ho
    have hname := (hcomp.wanted o ho).2
    obtain ⟨td, htd, rfl⟩ := List.mem_map.1 (houtputs ▸ ho)
    obtain ⟨hatom, hnode⟩ := hatoms td htd
    rcases filled_home hcomp hds hunique hnode hatom with ⟨hheld, hown⟩ | ⟨m, hm, s, hs, -⟩
    · exact hown hname ▸ hheld
    · -- a node with a step would have put it into the plan
      have hmem : s ∈ sol.plan.steps := by
        rw [hsteps]
        exact List.mem_filterMap.2
          ⟨m, hds.mem_firsts.2 (mem_nodesAll_of_mem_nodes hnode hm), hs⟩
      rw [hidle] at hmem
      cases hmem
  · rintro ⟨t, ht⟩
    have hself : (⟨sol.plan.inputType, sol.plan.input.id⟩ : Tuple) = sol.plan.input := rfl
    rw [Plan.verify, hself]
    refine (Plan.verifyFrom_congr fun u => ?_).1 hverified
    rw [List.mem_singleton]
    exact ⟨fun hu => (ht u hu).trans (ht _ hin).symm, fun hu => hu ▸ hin⟩

/-! ### A solved query -/

/-- A paragraph, and a recipe with ingredients for one topic and steps for another. -/
def Demo.recipeQuery : Query :=
  ((Query.empty.withInput "topic" 1 [("topic", .text "leek")]).withInput "topic" 2
      [("topic", .text "barley")]).withResource "recipe"
      (((ResourceSpec.ofId 2).describe "ingredients" [("of", "topic", 1)]).describe "steps"
        [("for", "topic", 2)])
    |>.withOutput "paragraph" 5
    |>.withOutput "recipe" 2

/-- The demonstration solves the query, and the plan runs. -/
theorem Demo.solve_recipeQuery : ∃ p sol, planner 8 = .ok p ∧ p.solve recipeQuery = .ok sol ∧
    sol.plan.steps ≠ [] ∧ sol.plan.verifyFrom recipeQuery.inputTuples = .ok () ∧
      (sol.plan.executeSeeded sol.database.seed).isOk = true := by
  have hall : ((planner 8).toOption.any fun p => (p.solve recipeQuery).toOption.any fun sol =>
      !sol.plan.steps.isEmpty && decide (sol.plan.verifyFrom recipeQuery.inputTuples = .ok ()) &&
        (sol.plan.executeSeeded sol.database.seed).isOk) = true := by decide +kernel
  obtain ⟨p, hp, hall⟩ := any_toOption_iff.1 hall
  obtain ⟨sol, hs, hall⟩ := any_toOption_iff.1 hall
  simp only [Bool.and_eq_true, Bool.not_eq_true', decide_eq_true_eq,
    List.isEmpty_eq_false_iff] at hall
  exact ⟨p, sol, hp, hs, hall.1.1, hall.1.2, hall.2⟩

theorem solve_sound_recipe : ∃ p sol, Demo.planner 8 = .ok p ∧
    p.solve Demo.recipeQuery = .ok sol ∧ sol.Sound Demo.recipeQuery := by
  obtain ⟨p, sol, hp, hs, -⟩ := Demo.solve_recipeQuery
  exact ⟨p, sol, hp, hs, solve_sound p Demo.recipeQuery sol (by decide) hs⟩

end HornPlan
