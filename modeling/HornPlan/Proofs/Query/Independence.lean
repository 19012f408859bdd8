/-
  HornPlan/Proofs/Query/Independence.lean
  =======================================
  **When the outputs of all documents are independent.**

  Tasks that make two types from one another are enough for a document whose outputs
  depend on one another: it holds an instance of both types, and wants another one of
  each.  On its own either output is proved, by the tasks that lead from the other
  type (`proveAtom_of_chain`).  Together they are refused.  Both proofs go back to a
  held instance, of one of the two types; the session keeps this as the proof of any
  instance of the type, and may not use it for the output that asks for a made one
  (`not_derived`).

  So the outputs of all documents over a catalog are independent exactly if such
  types are out of reach, because a task that leads to them is about a type that is
  not registered (`independent_iff`).

  Specification, sections 4.4 and G (memoization), of several outputs in one resolution.
-/
import HornPlan.Demo
import HornPlan.Proofs.Query.Entanglement
import HornPlan.Proofs.Value.Fields

namespace HornPlan

open HornPlan.Derivation Relation

namespace Query

variable {r : Registry} {c : Catalog} {q : Query}

/-! ### Outputs on their own -/

section Reading

variable (s : Reading r c q) (htasks : ∀ t ∈ s.tasks, r.checkTask t = .ok ())
include htasks

/-- A loose instance is proved by its assignment only. -/
theorem rule_of_loose {o : Tuple} (ho : o ∈ s.loose) {cl : Clause} (hcl : cl ∈ s.database.clauses)
    (hkind : cl.kind ≠ .inputFact) (hhead : cl.head = .resource o) : cl = .assignment o := by
  have hname := s.named_of_mem_loose ho
  cases s.shape htasks cl hcl with
  | assignment _ =>
    injection hhead with hhead
    rw [hhead]
  | completion he _ =>
    -- a declared instance is not loose
    injection hhead with hhead
    obtain ⟨d, hd, hread⟩ := exists_result_of_map_eq s.declared_eq he
    obtain ⟨hsubject, -⟩ := compileResource_eq_ok hread
    have hknown : o ∈ s.held ++ s.declared.map Prod.fst :=
      List.mem_append_right _ (List.mem_map.2 ⟨d, hd, hsubject.trans hhead⟩)
    exact absurd hknown (of_decide_eq_true (List.mem_filter.1 ho).2)
  | inputFact _ _ => exact absurd rfl hkind
  | generalization _ _ =>
    injection hhead with hhead
    exact absurd hhead.symm (hname.ne_generalize _)
  | task _ _ =>
    injection hhead with hhead
    exact absurd hhead.symm (hname.ne_generalize (.wildcard _))
  | descriptor _ _ _ _ _ _ _ _ => cases hhead
  | allDependencies _ _ _ _ => cases hhead

/-- What tasks lead to from what follows, follows, if the lineage has the tasks. -/
theorem follows_of_chain {allowed : Clause → Prop} (htask : ∀ t, allowed (.ofTask t))
    {x y root : String} (hroot : root ∈ s.demand.roots)
    (hy : ReflTransGen (Catalog.Feeds c.tasks) y root)
    (hchain : ReflTransGen (Catalog.Feeds c.tasks) x y)
    (hx : Follows s.database allowed (.any x)) : Follows s.database allowed (.any y) := by
  induction hchain with
  | refl => exact hx
  | @tail y z hxy hstep ih =>
    have hfollows := ih (hy.head hstep)
    obtain ⟨task, hmem, rfl, rfl⟩ := hstep
    obtain ⟨task', hclause, hin, hout⟩ := s.exists_task htasks
      (Catalog.mem_lineage.2 ⟨hmem, root, hroot, hy⟩)
    have hrule : Follows s.database allowed (Clause.ofTask task').head := by
      apply Follows.rule hclause nofun (htask task')
      intro b hb
      rw [List.mem_singleton.1 hb]
      exact (congrArg (fun i => Follows s.database allowed (.any i)) hin).mpr hfollows
    exact (congrArg (fun o => Follows s.database allowed (.any o)) hout).mp hrule

end Reading

/-- A search for an instance that makes any instance of its type, by tasks that start
    from a held instance of another type. -/
def fromHeld (o i : Tuple) : Guide where
  allowed cl := (∃ t, cl = .ofTask t) ∨ cl = .generalization i ∨ cl = .assignment o
  made a := a = .any o.type
  reached path goal := (path = [] ∧ goal = .resource o) ∨
    (path = [.resource o] ∧ goal = .any o.type) ∨ .any o.type ∈ path

section Chain

variable (s : Reading r c q) (htasks : ∀ t ∈ s.tasks, r.checkTask t = .ok ())
  {o i : Tuple} (ho : o ∈ s.loose) (hi : i ∈ s.held)
  (hchain : TransGen (Catalog.Feeds c.tasks) i.type o.type)
include htasks ho hi hchain

/-- Any instance follows by the tasks from the held instance. -/
theorem follows_fromHeld : Follows s.database
    (fun cl => (∃ t, cl = .ofTask t) ∨ cl = .generalization i) (.any o.type) := by
  have hcomp := s.compiled htasks
  have hroot : o.type ∈ s.demand.roots := List.mem_append_right _ (List.mem_map_of_mem ho)
  refine follows_of_chain s htasks (fun t => Or.inl ⟨t, rfl⟩) hroot .refl hchain.to_reflTransGen ?_
  apply Follows.rule (s.generalization_mem htasks hi) nofun (Or.inr rfl)
  intro b hb
  rw [List.mem_singleton.1 hb]
  exact .fact (hcomp.fact?_ne_none (s.held_eq ▸ hi))

theorem fromHeld_valid (hne : i.type ≠ o.type) : (fromHeld o i).Valid s.database where
  step := by
    rintro path goal hreached - - cl hcl hkind hhead b hb
    rcases hreached with ⟨rfl, rfl⟩ | ⟨-, rfl⟩ | hmem
    · rw [rule_of_loose s htasks ho hcl hkind hhead] at hb
      exact Or.inr (Or.inl ⟨rfl, List.mem_singleton.1 hb⟩)
    · exact Or.inr (Or.inr List.mem_cons_self)
    · exact Or.inr (Or.inr (List.mem_cons_of_mem _ hmem))
  asks := by
    rintro cl - hallowed hkind b hb
    rcases hallowed with ⟨t, rfl⟩ | rfl | rfl
    · simp [Clause.ofTask] at hkind
    · simp [Clause.generalization] at hkind
    · cases hb
      rfl
  makes := by
    rintro path goal hreached rfl - hpath
    have hname := s.named_of_mem_loose ho
    have hcomp := s.compiled htasks
    obtain ⟨cl, hcl, hkind, hallowed, hhead, hbody⟩ :=
      (follows_fromHeld s htasks ho hi hchain).avoiding (fact?_any hcomp o.type)
    obtain ⟨t, rfl⟩ : ∃ t, cl = .ofTask t := by
      apply hallowed.resolve_right
      rintro rfl
      injection hhead with hhead
      injection hhead with htype
      exact hne htype
    refine Or.inr ⟨_, hcl, hkind, Nat.lt_succ_self 3, Or.inl ⟨t, rfl⟩, hhead, ?_⟩
    intro b hb
    refine (hbody b hb).mono fun cl' hcl' => ⟨hcl'.1.imp_right Or.inl, ?_⟩
    intro hmem
    -- the path holds the instance alone, and no rule in use proves that
    rcases List.mem_cons.1 hmem with hmem | hmem
    · exact hcl'.2 (hmem ▸ List.mem_cons_self)
    · rcases hreached with ⟨-, heq⟩ | ⟨rfl, -⟩ | hmem'
      · exact hname.any_ne o.type heq.symm
      · obtain ⟨x, hx⟩ : ∃ x, cl'.head = .any x := by
          rcases hcl'.1 with ⟨t', rfl⟩ | rfl
          · exact ⟨t'.output, rfl⟩
          · exact ⟨i.type, rfl⟩
        exact hname.any_ne x ((List.mem_singleton.1 hmem).symm.trans hx)
      · exact hpath hmem'

/-- **On its own a loose instance is proved**, if tasks lead to its type from a held
    instance of another type. -/
theorem proveAtom_of_chain (hne : i.type ≠ o.type) {maxDepth : Nat}
    (hroom : s.database.heads.card < maxDepth) :
    ∃ d, ((Session.start s.database maxDepth).proveAtom (.resource o)).1 = .ok d := by
  have hroom' : s.database.ruleHeads.card < maxDepth :=
    Nat.lt_of_le_of_lt s.database.card_ruleHeads_le hroom
  obtain ⟨-, hfind⟩ := Session.prove_finds (s := .start s.database maxDepth)
    (fromHeld_valid s htasks ho hi hchain hne) (Session.settled_start _ _)
    (fun _ _ _ h => nomatch h) hroom' (Or.inl ⟨rfl, rfl⟩)
  obtain ⟨d, hd⟩ := hfind (.rule (s.assignment_mem htasks ho) nofun (Or.inr (Or.inr rfl))
    fun b hb => by
      rw [List.mem_singleton.1 hb]
      exact (follows_fromHeld s htasks ho hi hchain).mono fun _ h => h.imp_right Or.inl)
  exact ⟨d, Session.proveAtom_eq_ok.2 hd⟩

end Chain

/-! ### Outputs together -/

/-- A proof of any instance goes back to a held one. -/
theorem exists_generalization {db : Database} (hcomp : Compiled r c q db) {ds : List Derivation}
    (hds : Genuine db ds) {d : Derivation} {x : String} (hd : d ∈ nodesAll ds)
    (hatom : d.atom = .any x) :
    ∃ g ∈ d.nodes, g.kind = .generalization ∧ ∃ i ∈ q.inputTuples, g.atom = .any i.type := by
  induction d generalizing x with
  | node atom clause kind children ih =>
    rcases (hcomp.form_of_mem hds hd).of_wildcard hatom with
      ⟨-, t, -, -, first, hchildren, hfirst⟩ | ⟨hkind, i, hi, hx, -⟩
    · have hchild : first ∈ children := by
        rw [show children = [first] from hchildren]
        exact List.mem_cons_self
      have hbelow : first.Below ⟨atom, clause, kind, children⟩ := below_of_mem_children hchild
      obtain ⟨g, hg, hkind, hheld⟩ :=
        ih first hchild (mem_nodesAll_of_mem_nodes hd hbelow.mem_nodes) hfirst
      exact ⟨g, mem_nodes_trans hg hbelow.mem_nodes, hkind, hheld⟩
    · exact ⟨_, self_mem_nodes _, hkind, i, hi, hatom.trans (hx ▸ rfl)⟩

section Reading

variable (s : Reading r c q) (htasks : ∀ t ∈ s.tasks, r.checkTask t = .ok ())
include htasks

/-- A proof of a loose instance contains one of any instance, by a task. -/
theorem exists_task_of_loose {ds : List Derivation} (hds : Genuine s.database ds) {o : Tuple}
    (ho : o ∈ s.loose) {d : Derivation} (hd : d ∈ nodesAll ds) (hatom : d.atom = .resource o) :
    ∃ first ∈ nodesAll ds, first.kind = .task ∧ first.atom = .any o.type := by
  have hcomp := s.compiled htasks
  obtain ⟨cl, hget, hhead, hclkind, -⟩ := (hds.justified d hd).clause
  have hcl := List.mem_of_getElem? hget
  have hnot : o ∉ q.inputTuples := by
    intro hmem
    have hknown := of_decide_eq_true (List.mem_filter.1 ho).2
    exact hknown (List.mem_append_left _ (s.held_eq ▸ hmem))
  have hkind : d.kind = .assignment := by
    rw [← hclkind, rule_of_loose s htasks ho hcl ?_ (hhead.trans hatom)]
    · rfl
    · intro hfact
      obtain ⟨t, ht, heq⟩ := hcomp.of_fact? (Database.fact?_ne_none hcl ⟨hfact, hhead.trans hatom⟩)
      injection heq with heq
      exact hnot (heq ▸ ht)
  have hform := hcomp.form_of_mem hds hd
  cases hform with
  | @assignment t i first _ _ hfirst hmade _ =>
    injection hatom with hatom
    subst hatom
    have hbelow : first.Below ⟨.resource t, i, .assignment, [first]⟩ :=
      below_of_mem_children List.mem_cons_self
    exact ⟨first, mem_nodesAll_of_mem_nodes hd hbelow.mem_nodes, hmade, hfirst⟩
  | _ => cases hkind

/-- **Together the outputs are refused**, if one of them is loose, and a loose one is
    wanted of every type that is held. -/
theorem not_derived (hsome : ∃ o ∈ s.outputs, o ∈ s.loose)
    (hwanted : ∀ i ∈ s.held, ∃ o ∈ s.outputs, o ∈ s.loose ∧ o.type = i.type) {maxDepth : Nat}
    {ds : List (Tuple × Derivation)} : (Session.start s.database maxDepth).derive.1 ≠ .ok ds := by
  intro hds
  have hcomp := s.compiled htasks
  obtain ⟨hgenuine, houtputs, hatoms⟩ := Session.derive_genuine hds
  have hmade : ∀ o ∈ s.outputs, o ∈ s.loose →
      ∃ first ∈ nodesAll (ds.map Prod.snd), first.kind = .task ∧ first.atom = .any o.type := by
    intro o hout ho
    obtain ⟨td, htd, rfl⟩ := List.mem_map.1 (houtputs ▸ hout : o ∈ ds.map Prod.fst)
    refine exists_task_of_loose s htasks hgenuine ho (d := td.2) ?_ (hatoms td htd)
    exact mem_nodesAll.2 ⟨td.2, List.mem_map_of_mem htd, self_mem_nodes _⟩
  obtain ⟨o, hout, ho⟩ := hsome
  obtain ⟨d, hd, -, hatom⟩ := hmade o hout ho
  obtain ⟨g, hg, hgen, i, hi, hgatom⟩ := exists_generalization hcomp hgenuine hd hatom
  -- the held instance at the bottom is of a type of which a made one is asked for
  obtain ⟨o', hout', ho', htype⟩ := hwanted i (s.held_eq ▸ hi)
  obtain ⟨d', hd', htask, hatom'⟩ := hmade o' hout' ho'
  have hsame : g = d' := hgenuine.unique g (mem_nodesAll_of_mem_nodes hd hg) d' hd'
    (by rw [hgatom, hatom', htype])
  rw [hsame, htask] at hgen
  cases hgen

end Reading

/-! ### Two types that are made from one another -/

/-- Arguments that carry the fields of a type, and are not empty. -/
def blankArgs (r : Registry) (type : String) : Fields :=
  .ofList (("", .null) :: ((r.type? type).elim [] ResourceType.fields).map fun f => (f, .null))

/-- The document that holds an instance of each of two types, and wants another one. -/
def crossed (r : Registry) (t u : String) : Query where
  input := [⟨t, ⟨1, some (blankArgs r t)⟩⟩, ⟨u, ⟨1, some (blankArgs r u)⟩⟩]
  resources := []
  output := [⟨t, ⟨2⟩⟩, ⟨u, ⟨2⟩⟩]

theorem instantiate_blankArgs {t : String} (ht : r.contains t = true) :
    r.instantiate t (blankArgs r t) = .ok ⟨t, blankArgs r t⟩ := by
  obtain ⟨type, htype⟩ := Option.isSome_iff_exists.1 ht
  have hresolve : r.resolve t = .ok type := by rw [Registry.resolve, htype]
  have hfields : type.fields.find? (fun f => !(blankArgs r t).contains f) = none := by
    refine List.find?_eq_none.2 fun f hf => ?_
    rw [Bool.not_eq_true', Bool.not_eq_false]
    refine Fields.contains_ofList.2 (List.mem_cons_of_mem _ ?_)
    rw [htype, Option.elim_some, List.map_map]
    exact List.mem_map.2 ⟨f, hf, rfl⟩
  refine bind_eq_ok.2 ⟨type, hresolve, ?_⟩
  rw [hfields]

theorem compileInput_blankArgs {t : String} (ht : r.contains t = true) :
    compileInput r ⟨t, ⟨1, some (blankArgs r t)⟩⟩ =
      .ok (instanceOf t 1, ⟨t, blankArgs r t⟩) := by
  have hsome : (blankArgs r t).contains "" = true :=
    Fields.contains_ofList.2 List.mem_cons_self
  have hvalue := instantiate_blankArgs ht
  have hid : (1 : UInt32) ≠ 0 := by decide
  refine bind_eq_ok.2 ⟨instanceOf t 1, tuple_eq_ok.2 ⟨ht, hid, rfl⟩, ?_⟩
  dsimp only
  cases hargs : blankArgs r t with
  | nil =>
    rw [hargs] at hsome
    cases hsome
  | cons arg args =>
    rw [hargs] at hvalue
    exact bind_eq_ok.2 ⟨_, hvalue, rfl⟩

/-- What the document is read as. -/
def crossedReading (c : Catalog) {t u : String} (ht : r.contains t = true)
    (hu : r.contains u = true) : Reading r c (crossed r t u) where
  inputs := [(instanceOf t 1, ⟨t, blankArgs r t⟩), (instanceOf u 1, ⟨u, blankArgs r u⟩)]
  declared := []
  outputs := [instanceOf t 2, instanceOf u 2]
  inputs_eq := by
    rw [crossed, List.map_cons, List.map_cons, compileInput_blankArgs ht, compileInput_blankArgs hu]
    rfl
  declared_eq := rfl
  outputs_eq := by
    have hid : (2 : UInt32) ≠ 0 := by decide
    have hread : ∀ x, r.contains x = true →
        reference r "output" ⟨x, ⟨2⟩⟩ = .ok (instanceOf x 2) := fun x hx =>
      reference_eq_ok.2 ⟨hx, hid, rfl⟩
    rw [crossed, List.map_cons, List.map_cons, hread t ht, hread u hu]
    rfl

section Crossed

variable {t u : String} (ht : r.contains t = true) (hu : r.contains u = true)
include ht hu

theorem mem_held_crossedReading {i : Tuple} :
    i ∈ (crossedReading c ht hu).held ↔ i = instanceOf t 1 ∨ i = instanceOf u 1 := by
  simp [crossedReading, Reading.held]

theorem mem_outputs_crossedReading {o : Tuple} :
    o ∈ (crossedReading c ht hu).outputs ↔ o = instanceOf t 2 ∨ o = instanceOf u 2 := by
  simp [crossedReading]

/-- What is wanted is neither held nor declared. -/
theorem loose_crossedReading :
    (crossedReading c ht hu).loose = (crossedReading c ht hu).outputs := by
  have hne : ∀ x y, instanceOf x 2 ≠ instanceOf y 1 := by
    intro x y h
    injection h with _ hid
    exact absurd hid (by decide)
  apply List.filter_eq_self.2
  intro o ho
  apply decide_eq_true
  intro hknown
  have hheld : o ∈ (crossedReading c ht hu).held := by simpa [crossedReading] using hknown
  have hout : o ∈ (crossedReading c ht hu).outputs := ho
  rcases (mem_outputs_crossedReading ht hu).1 hout with rfl | rfl
  · exact ((mem_held_crossedReading ht hu).1 hheld).elim (hne _ _) (hne _ _)
  · exact ((mem_held_crossedReading ht hu).1 hheld).elim (hne _ _) (hne _ _)

variable (htu : t ≠ u) (hforth : TransGen (Catalog.Feeds c.tasks) t u)
  (hback : TransGen (Catalog.Feeds c.tasks) u t)
  (hcheck : ∀ task ∈ c.lineage [t], r.checkTask task = .ok ())
include htu hforth hback hcheck

/-- **The document compiles, and its outputs depend on one another.** -/
theorem crossed_not_independent : ∃ db, (crossed r t u).compile r c = .ok db ∧
    ∀ maxDepth, db.heads.card < maxDepth → ¬ db.Independent maxDepth := by
  let s := crossedReading c ht hu
  have hloose : ∀ o ∈ s.outputs, o ∈ s.loose := by
    intro o ho
    rw [loose_crossedReading ht hu]
    exact ho
  have htasks : ∀ task ∈ s.tasks, r.checkTask task = .ok () := by
    intro task htask
    apply hcheck
    apply Catalog.lineage_subset _ htask
    intro x hx
    obtain ⟨o, ho, rfl⟩ : ∃ o ∈ s.outputs, o.type = x := by
      have hx' : x ∈ s.loose.map Tuple.type := hx
      rw [loose_crossedReading ht hu] at hx'
      exact List.mem_map.1 hx'
    refine ⟨t, List.mem_cons_self, ?_⟩
    rcases (mem_outputs_crossedReading ht hu).1 ho with rfl | rfl
    · exact .refl
    · exact hback.to_reflTransGen
  have hother : ∀ o ∈ s.outputs, ∃ i ∈ s.held, i.type ≠ o.type ∧
      TransGen (Catalog.Feeds c.tasks) i.type o.type := by
    intro o ho
    rcases (mem_outputs_crossedReading ht hu).1 ho with rfl | rfl
    · exact ⟨_, (mem_held_crossedReading ht hu).2 (Or.inr rfl), htu.symm, hback⟩
    · exact ⟨_, (mem_held_crossedReading ht hu).2 (Or.inl rfl), htu, hforth⟩
  have hwanted : ∀ i ∈ s.held, ∃ o ∈ s.outputs, o ∈ s.loose ∧ o.type = i.type := by
    intro i hi
    rcases (mem_held_crossedReading ht hu).1 hi with rfl | rfl
    · have hout := (mem_outputs_crossedReading (c := c) ht hu).2 (Or.inl rfl)
      exact ⟨_, hout, hloose _ hout, rfl⟩
    · have hout := (mem_outputs_crossedReading (c := c) ht hu).2 (Or.inr rfl)
      exact ⟨_, hout, hloose _ hout, rfl⟩
  refine ⟨s.database, compile_eq_ok.2 ⟨s, htasks, rfl⟩, ?_⟩
  intro maxDepth hroom hindependent
  obtain ⟨ds, hds⟩ := hindependent.2 fun o ho => by
    obtain ⟨i, hi, hne, hchain⟩ := hother o ho
    exact proveAtom_of_chain s htasks (hloose o ho) hi hchain hne hroom
  have hout : instanceOf t 2 ∈ s.outputs := List.mem_cons_self
  exact not_derived s htasks ⟨_, hout, hloose _ hout⟩ hwanted hds

end Crossed

/-! ### All documents -/

/-- A type of which a made instance is asked for is one that the lineage starts from. -/
theorem Reading.mem_roots_of_asked (s : Reading r c q) {x : String} (h : Asked s.database x) :
    x ∈ s.demand.roots := by
  obtain ⟨cl, hcl, hkind, hfirst⟩ := h
  rcases s.mem_clauses hcl with ⟨i, -, rfl | rfl⟩ | ⟨d, hd, hcl⟩ | ⟨t, ht, rfl⟩ | ⟨t, -, rfl⟩
  · simp [Clause.inputFact] at hkind
  · simp [Clause.generalization] at hkind
  · refine List.mem_append_left _ (List.mem_flatMap.2 ⟨d, hd, ?_⟩)
    obtain ⟨e, -, he⟩ := exists_of_map_eq s.declared_eq hd
    obtain ⟨-, -, bound, hbound, -, hclauses, -, hroots⟩ := compileResource_eq_ok he
    rw [hclauses] at hcl
    rcases List.mem_append.1 hcl with hcl | hcl
    · obtain ⟨b, hb, hcl⟩ := List.mem_flatMap.1 hcl
      obtain ⟨descriptor, -, hb⟩ := exists_of_map_eq hbound hb
      obtain ⟨_, _, _, -, -, -, -, rfl⟩ := mem_bindDescriptor (compileDescriptor_eq_ok hb).2 hcl
      simp [Clause.dependentDescriptor] at hkind
    · have hempty : e.properties.isEmpty = true ∧ x = e.subject.type := by
        unfold completionClauses at hcl
        split at hcl
        · rename_i hnil
          rw [List.mem_singleton.1 hcl] at hfirst
          cases hfirst
          exact ⟨hnil.1, rfl⟩
        · rcases List.mem_cons.1 hcl with rfl | hcl
          · simp [Clause.allDependencies] at hkind
          · rw [List.mem_singleton.1 hcl] at hfirst
            cases hprops : e.properties.isEmpty with
            | false =>
              rw [hprops] at hfirst
              cases hfirst
            | true =>
              rw [hprops] at hfirst
              cases hfirst
              exact ⟨rfl, rfl⟩
      rw [hroots, if_pos hempty.1]
      exact List.mem_singleton.2 hempty.2
  · cases hfirst
    exact List.mem_append_right _ (List.mem_map_of_mem ht)
  · simp [Clause.ofTask] at hkind

/-- **The outputs of all documents are independent exactly if no two types are made
    from one another by tasks on a registered lineage**; and in any case those of a
    document without entangled types are. -/
theorem independent_iff (r : Registry) (c : Catalog) :
    (∀ (q : Query) (db : Database) (maxDepth : Nat), q.compile r c = .ok db →
      db.heads.card < maxDepth → ¬ Entangled c db → db.Independent maxDepth) ∧
    ((∀ (q : Query) (db : Database) (maxDepth : Nat), q.compile r c = .ok db →
        db.heads.card < maxDepth → db.Independent maxDepth) ↔
      ∀ t u, t ≠ u → TransGen (Catalog.Feeds c.tasks) t u →
        TransGen (Catalog.Feeds c.tasks) u t →
          ∃ task ∈ c.lineage [t], r.checkTask task ≠ .ok ()) := by
  refine ⟨fun q db maxDepth h hroom hfree => independent_of_not_entangled h hfree hroom, ?_, ?_⟩
  · intro hall t u htu hforth hback
    by_contra hnone
    push Not at hnone
    -- the lineage has a task that makes the one type and a task that takes the other
    have ht : r.contains t = true := by
      obtain ⟨x, -, task, htask, -, rfl⟩ := TransGen.tail'_iff.1 hback
      exact (checkTask_eq_ok.1 (hnone task (Catalog.mem_lineage.2
        ⟨htask, task.output, List.mem_cons_self, .refl⟩))).2
    have hu : r.contains u = true := by
      obtain ⟨x, ⟨task, htask, rfl, rfl⟩, hrest⟩ := TransGen.head'_iff.1 hback
      exact (checkTask_eq_ok.1 (hnone task (Catalog.mem_lineage.2
        ⟨htask, t, List.mem_cons_self, hrest⟩))).1
    obtain ⟨db, hcompile, hdependent⟩ := crossed_not_independent ht hu htu hforth hback hnone
    exact hdependent _ (Nat.lt_succ_self _) (hall _ db _ hcompile (Nat.lt_succ_self _))
  · intro hall q db maxDepth h hroom
    refine independent_of_not_entangled h ?_ hroom
    rintro ⟨x, y, hne, -, hasked, hforth, hback⟩
    obtain ⟨s, htasks, rfl⟩ := compile_eq_ok.1 h
    obtain ⟨task, htask, hcheck⟩ := hall x y hne.symm hforth hback
    refine hcheck (htasks task (Catalog.lineage_subset (fun t ht => ?_) htask))
    rw [List.mem_singleton.1 ht]
    exact ⟨x, s.mem_roots_of_asked hasked, .refl⟩

end Query

/-! ### Outputs of the demonstration that depend on one another -/

/-- Another paragraph and another sentence, where a sentence and a paragraph are held. -/
def Demo.rewriteQuery : Query :=
  (Query.empty.withInput "sentence" 1 [("text", .text "Leeks are mild.")]).withInput "paragraph" 5
      [("text", .text "Barley is chewy. It keeps well.")]
    |>.withOutput "paragraph" 1
    |>.withOutput "sentence" 2

/-- Either output is proved on its own; but once the paragraph is, the sentence is
    refused. -/
theorem Demo.rewriteQuery_not_independent : ∃ p db, planner 64 = .ok p ∧
    rewriteQuery.compile p.registry p.catalog = .ok db ∧ db.heads.card < p.maxDepth ∧
      (∀ o ∈ db.outputs,
        ∃ d, ((Session.start db p.maxDepth).proveAtom (.resource o)).1 = .ok d) ∧
      (Session.start db p.maxDepth).derive.1 =
        .error (.outputUnreachable "sentence_2" "sentence_2") ∧
      ¬ db.Independent p.maxDepth := by
  have hall : ((planner 64).toOption.any fun p =>
      (rewriteQuery.compile p.registry p.catalog).toOption.any fun db =>
        decide (db.heads.card < p.maxDepth) &&
          db.outputs.all (fun o =>
            ((Session.start db p.maxDepth).proveAtom (.resource o)).1.isOk) &&
          match (Session.start db p.maxDepth).derive.1 with
          | .error e => decide (e = .outputUnreachable "sentence_2" "sentence_2")
          | .ok _ => false) = true := by decide +kernel
  obtain ⟨p, hp, hall⟩ := any_toOption_iff.1 hall
  obtain ⟨db, hdb, hall⟩ := any_toOption_iff.1 hall
  simp only [Bool.and_eq_true, decide_eq_true_eq, List.all_eq_true, isOk_iff] at hall
  obtain ⟨⟨hroom, hfresh⟩, hrefused⟩ := hall
  rcases hderive : (Session.start db p.maxDepth).derive.1 with e | ds
  · rw [hderive] at hrefused
    refine ⟨p, db, hp, hdb, hroom, hfresh, ?_, ?_⟩
    · exact hderive.trans (congrArg _ (of_decide_eq_true hrefused))
    · intro hindependent
      obtain ⟨ds, hds⟩ := hindependent.2 hfresh
      cases hderive.symm.trans hds
  · rw [hderive] at hrefused
    cases hrefused

end HornPlan
