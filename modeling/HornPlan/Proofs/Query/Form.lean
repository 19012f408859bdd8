/-
  HornPlan/Proofs/Query/Form.lean
  ===============================
  **The nodes of proofs over a compiled database.**

  The shapes of the clauses of a compiled database fix what the nodes of a proof look
  like (`Form`): the clause, the children, and the step.  Two things come in from the
  search.  An instance that is held is proved by its fact; and an instance that has to
  be made rests on a task, since it may not rest on a held instance, and nothing but
  tasks and held instances proves a wildcard.

  `Compiled.form_of_mem` is what later proofs about plans take apart.
-/
import HornPlan.Proofs.Plan.Walk
import HornPlan.Proofs.Query.Shape

namespace HornPlan

open HornPlan.Derivation

namespace Query

variable {r : Registry} {c : Catalog} {q : Query} {db : Database}

/-! ### Compiled databases -/

/-- What is known of the database that a document compiles to. -/
structure Compiled (r : Registry) (c : Catalog) (q : Query) (db : Database) : Prop where
  shape : ∀ cl ∈ db.clauses, Shape r c q cl
  fact : ∀ t ∈ q.inputTuples, .inputFact t ∈ db.clauses
  held : ∀ t ∈ q.inputTuples, Named r t
  inputs : db.inputs.map Prod.fst = q.inputTuples
  typed : ∀ i ∈ db.inputs, i.2.type = i.1.type
  outputs : db.outputs = q.outputTuples
  wanted : ∀ t ∈ q.outputTuples, Named r t

theorem Reading.compiled (s : Reading r c q) (htasks : ∀ t ∈ s.tasks, r.checkTask t = .ok ()) :
    Compiled r c q s.database := by
  refine ⟨s.shape htasks, ?_, ?_, s.held_eq,
    fun i hi => (s.of_mem_inputs hi).2, s.outputs_eq_outputTuples, ?_⟩
  · intro t ht
    exact s.fact_mem htasks (s.held_eq ▸ ht)
  · intro t ht
    exact s.named_of_mem_held (s.held_eq ▸ ht)
  · intro t ht
    exact named_of_references s.outputs_eq t (s.outputs_eq_outputTuples ▸ ht)

theorem compiled (h : q.compile r c = .ok db) : Compiled r c q db := by
  obtain ⟨s, htasks, rfl⟩ := compile_eq_ok.1 h
  exact s.compiled htasks

theorem Shape.formed {cl : Clause} (h : Shape r c q cl) : cl.Formed := by
  cases h <;> constructor

theorem Compiled.formed (h : Compiled r c q db) : db.Formed :=
  fun cl hcl => (h.shape cl hcl).formed

theorem Compiled.readsFirst (h : Compiled r c q db) : db.ReadsFirst := h.formed.readsFirst

/-- What the input section states is stated by a fact. -/
theorem Compiled.fact?_ne_none (h : Compiled r c q db) {t : Tuple} (ht : t ∈ q.inputTuples) :
    db.fact? (.resource t) ≠ none :=
  Database.fact?_ne_none (h.fact t ht) ⟨rfl, rfl⟩

/-- Nothing else is stated by a fact. -/
theorem Compiled.of_fact? (h : Compiled r c q db) {a : Atom} (ha : db.fact? a ≠ none) :
    ∃ t ∈ q.inputTuples, a = .resource t := by
  obtain ⟨i, hi⟩ := Option.ne_none_iff_exists'.1 ha
  obtain ⟨⟨cl, hget, hkind, hhead⟩, -⟩ := Database.fact?_eq_some hi
  cases h.shape cl (List.mem_of_getElem? hget) with
  | inputFact ht _ => exact ⟨_, ht, hhead.symm⟩
  | _ => cases hkind

/-! ### Nodes -/

/-- What a node of a proof over a compiled database looks like. -/
inductive Form (r : Registry) (c : Catalog) (q : Query) (db : Database) : Derivation → Prop
  /-- A held instance. -/
  | fact {t : Tuple} {i : Nat} (ht : t ∈ q.inputTuples) (hname : Named r t)
    (hstep : step? db ⟨.resource t, i, .inputFact, []⟩ = none) :
    Form r c q db ⟨.resource t, i, .inputFact, []⟩
  /-- Any instance, made by a task. -/
  | task {t : Task} {i : Nat} {first : Derivation} (ht : t ∈ c.tasks)
    (hfirst : first.atom = .resource (.wildcard t.input))
    (hstep : step? db ⟨.resource (.wildcard t.output), i, .task, [first]⟩ =
      some ⟨t, .task, first.home, .wildcard t.output⟩) :
    Form r c q db ⟨.resource (.wildcard t.output), i, .task, [first]⟩
  /-- Any instance, for which a held one stands. -/
  | generalization {t : Tuple} {i j : Nat} (ht : t ∈ q.inputTuples)
    (hstep : step? db ⟨.resource t.generalize, i, .generalization,
      [⟨.resource t, j, .inputFact, []⟩]⟩ = none) :
    Form r c q db ⟨.resource t.generalize, i, .generalization, [⟨.resource t, j, .inputFact, []⟩]⟩
  /-- An instance for which any that is made will do. -/
  | assignment {t : Tuple} {i : Nat} {first : Derivation} (ht : t ∉ q.inputTuples)
    (hname : Named r t) (hfirst : first.atom = .resource t.generalize) (hmade : first.kind = .task)
    (hstep : step? db ⟨.resource t, i, .assignment, [first]⟩ = none) :
    Form r c q db ⟨.resource t, i, .assignment, [first]⟩
  /-- An instance for which any that is made will do once all it depends on is there. -/
  | produced {e : Entry ResourceSpec} {i : Nat} {first aggregate : Derivation}
    (he : e ∈ q.resources) (ht : e.subject ∉ q.inputTuples) (hname : Named r e.subject)
    (hfirst : first.atom = .resource e.subject.generalize) (hmade : first.kind = .task)
    (haggregate : aggregate.atom = .allDependencies e.subject) (hprops : e.properties = [])
    (hstep : step? db ⟨.resource e.subject, i, .completion, [first, aggregate]⟩ = none) :
    Form r c q db ⟨.resource e.subject, i, .completion, [first, aggregate]⟩
  /-- An instance that consists of its properties. -/
  | described {e : Entry ResourceSpec} {i : Nat} {aggregate : Derivation} (he : e ∈ q.resources)
    (ht : e.subject ∉ q.inputTuples) (hname : Named r e.subject)
    (haggregate : aggregate.atom = .allDependencies e.subject) (hprops : e.properties ≠ [])
    (hstep : step? db ⟨.resource e.subject, i, .completion, [aggregate]⟩ = none) :
    Form r c q db ⟨.resource e.subject, i, .completion, [aggregate]⟩
  /-- All that an instance depends on. -/
  | allDependencies {e : Entry ResourceSpec} {i : Nat} {children : List Derivation}
    {deps : List Tuple} (he : e ∈ q.resources) (hname : Named r e.subject)
    (hdeps : ∀ t ∈ deps, Named r t) (hsome : children ≠ [])
    (hchildren : children.map Derivation.atom = e.properties ++ deps.map .resource)
    (hstep : step? db ⟨.allDependencies e.subject, i, .allDependencies, children⟩ = none) :
    Form r c q db ⟨.allDependencies e.subject, i, .allDependencies, children⟩
  /-- A property, provided by a descriptor. -/
  | descriptor {e : Entry ResourceSpec} {d : Descriptor} {name : String} {i : Nat}
    {first : Derivation} {rest : List Derivation} {input : Tuple} {extra : List Tuple}
    (he : e ∈ q.resources) (hname : Named r e.subject) (hin : input.type = d.task.input)
    (hout : d.task.output = e.type) (hfirst : first.atom = .resource input)
    (hinput : Named r input) (hextra : ∀ t ∈ extra, Named r t)
    (hrest : rest.map Derivation.atom = extra.map .resource)
    (hstep : step? db ⟨.property name e.subject, i, .dependentDescriptor, first :: rest⟩ =
      some ⟨d.task, .descriptor d.name, first.home, e.subject⟩) :
    Form r c q db ⟨.property name e.subject, i, .dependentDescriptor, first :: rest⟩

/-- A justified node has the kind and the children that its clause asks for. -/
theorem Compiled.clause (h : Compiled r c q db) {n : Derivation} (hn : n.Justified db) :
    ∃ cl, Shape r c q cl ∧ cl.head = n.atom ∧ cl.kind = n.kind ∧
      (n.kind ≠ .inputFact → n.children.map Derivation.atom = cl.body) ∧
      db.clauses[n.clause]?.bind Clause.step = cl.step := by
  obtain ⟨cl, hget, hhead, hkind, hbody⟩ := hn.clause
  exact ⟨cl, h.shape cl (List.mem_of_getElem? hget), hhead, hkind, hbody, by rw [hget]; rfl⟩

/-- A proof of a held instance is its fact. -/
theorem Compiled.eq_fact (h : Compiled r c q db) {n : Derivation} (hn : n.Justified db) {t : Tuple}
    (ht : t ∈ q.inputTuples) (hatom : n.atom = .resource t) :
    n = ⟨.resource t, n.clause, .inputFact, []⟩ := by
  have hkind : n.kind = .inputFact := by
    by_contra hrule
    exact h.fact?_ne_none ht (hatom ▸ hn.rule hrule)
  obtain ⟨atom, clause, kind, children⟩ := n
  subst hatom hkind
  have hchildren : children = [] := (hn.fact rfl).1
  rw [hchildren]

/-- A node that is no fact does not prove a held instance. -/
theorem Compiled.not_held (h : Compiled r c q db) {n : Derivation} (hn : n.Justified db)
    {t : Tuple} (hatom : n.atom = .resource t) (hkind : n.kind ≠ .inputFact) :
    t ∉ q.inputTuples := fun ht =>
  h.fact?_ne_none ht (hatom ▸ hn.rule hkind)

/-- Any instance is made by a task unless a held one stands for it. -/
theorem Compiled.task_of_wildcard (h : Compiled r c q db) {n : Derivation} (hn : n.Justified db)
    {t : Tuple} (hatom : n.atom = .resource t.generalize) (hheld : n.kind ≠ .generalization) :
    n.kind = .task := by
  obtain ⟨cl, hshape, hhead, hkind, -⟩ := h.clause hn
  rw [hatom] at hhead
  rw [← hkind] at hheld ⊢
  cases hshape with
  | task _ _ => rfl
  | generalization _ _ => exact absurd rfl hheld
  | inputFact _ hname =>
    injection hhead with hhead
    exact absurd hhead (hname.ne_generalize t)
  | assignment hname =>
    injection hhead with hhead
    exact absurd hhead (hname.ne_generalize t)
  | completion _ hname =>
    injection hhead with hhead
    exact absurd hhead (hname.ne_generalize t)
  | allDependencies _ _ _ _ => cases hhead
  | descriptor _ _ _ _ _ _ _ _ => cases hhead

/-- The only child of a node whose body is one atom. -/
theorem eq_singleton {ds : List Derivation} {a : Atom} (h : ds.map Derivation.atom = [a]) :
    ∃ d, ds = [d] ∧ d.atom = a := by
  obtain ⟨d, rfl, hd⟩ := List.map_eq_singleton_iff.1 h
  exact ⟨d, rfl, hd⟩

/-- **A justified node with justified children has one of the forms.** -/
theorem Compiled.form (h : Compiled r c q db) {n : Derivation} (hn : n.Justified db)
    (hchildren : ∀ d ∈ n.children, d.Justified db) : Form r c q db n := by
  obtain ⟨cl, hshape, hhead, hkind, hbody, hstep⟩ := h.clause hn
  have hmade := hn.made
  have hheld : ∀ t, n.atom = .resource t → n.kind ≠ .inputFact → t ∉ q.inputTuples :=
    fun t => h.not_held hn
  have hfact : n.kind = .inputFact → n.children = [] := by
    intro hk
    exact (hn.fact hk).1
  obtain ⟨atom, clause, kind, children⟩ := n
  dsimp only at hhead hkind hbody hstep hmade hheld hchildren hfact
  subst hhead hkind
  -- the step of the node, when the clause has none or one
  have hnone : cl.step = none → step? db ⟨cl.head, clause, cl.kind, children⟩ = none := by
    intro hcl
    rw [step?, hstep, hcl]
    rfl
  have hsome : ∀ s first rest, cl.step = some s → children = first :: rest →
      step? db ⟨cl.head, clause, cl.kind, children⟩ = some { s with input := first.home } := by
    intro s first rest hcl hfirst
    rw [step?, hstep, hcl, hfirst]
    rfl
  cases hshape with
  | @inputFact t ht hname =>
    have hnil : children = [] := hfact rfl
    subst hnil
    exact .fact ht hname (hnone rfl)
  | @task t ht _ =>
    obtain ⟨first, rfl, hfirst⟩ := eq_singleton (hbody (by simp [Clause.ofTask]))
    exact .task ht hfirst (hsome _ _ _ rfl rfl)
  | @generalization t ht _ =>
    obtain ⟨first, rfl, hfirst⟩ := eq_singleton (hbody (by simp [Clause.generalization]))
    have heq := h.eq_fact (hchildren first List.mem_cons_self) ht hfirst
    have hnone := hnone rfl
    rw [heq] at hnone ⊢
    exact .generalization ht hnone
  | @assignment t hname =>
    obtain ⟨first, rfl, hfirst⟩ := eq_singleton (hbody (by simp [Clause.assignment]))
    have hkind := h.task_of_wildcard (hchildren first List.mem_cons_self) hfirst
      (hmade (Or.inl rfl) first rfl)
    exact .assignment (hheld t rfl (by simp [Clause.assignment])) hname hfirst hkind (hnone rfl)
  | @completion e he hname =>
    have ht : e.subject ∉ q.inputTuples := hheld _ rfl (by simp [Clause.completion])
    have hbody := hbody (by simp [Clause.completion])
    have hnone := hnone rfl
    cases hprops : e.properties with
    | nil =>
      rw [hprops] at hbody
      obtain ⟨first, children, rfl, hfirst, hrest⟩ := List.map_eq_cons_iff.1 hbody
      obtain ⟨aggregate, rfl, haggregate⟩ := eq_singleton hrest
      have hkind := h.task_of_wildcard (hchildren first List.mem_cons_self) hfirst
        (hmade (Or.inr rfl) first rfl)
      exact .produced he ht hname hfirst hkind haggregate hprops hnone
    | cons a as =>
      rw [hprops] at hbody
      obtain ⟨aggregate, rfl, haggregate⟩ := eq_singleton hbody
      refine .described he ht hname haggregate ?_ hnone
      rw [hprops]
      exact List.cons_ne_nil _ _
  | @allDependencies e deps he hname hdeps hrequired =>
    have hbody := hbody (by simp [Clause.allDependencies])
    refine .allDependencies he hname hdeps ?_ hbody (hnone rfl)
    rintro rfl
    exact hrequired hbody.symm
  | @descriptor e name d input extra he hname _ _ hin hout hinput hextra =>
    obtain ⟨first, rest, rfl, hfirst, hrest⟩ :=
      List.map_eq_cons_iff.1 (hbody (by simp [Clause.dependentDescriptor]))
    exact .descriptor he hname hin hout hfirst hinput hextra hrest (hsome _ _ _ rfl rfl)

/-- Every node of genuine proofs has one of the forms. -/
theorem Compiled.form_of_mem (h : Compiled r c q db) {ds : List Derivation} (hds : Genuine db ds)
    {n : Derivation} (hn : n ∈ nodesAll ds) : Form r c q db n := by
  refine h.form (hds.justified n hn) fun d hd => hds.justified d ?_
  exact mem_nodesAll_of_mem_nodes hn (below_of_mem_children hd).mem_nodes

/-! ### Nodes of one kind -/

namespace Form

variable {n : Derivation}

/-- A node of kind `task` runs a task on its only child. -/
theorem of_task (h : Form r c q db n) (hkind : n.kind = .task) :
    ∃ t first, n.children = [first] ∧ first.atom = .resource (.wildcard t.input) ∧
      n.atom = .resource (.wildcard t.output) ∧
      step? db n = some ⟨t, .task, first.home, .wildcard t.output⟩ := by
  cases h with
  | task _ hfirst hstep => exact ⟨_, _, rfl, hfirst, rfl, hstep⟩
  | _ => cases hkind

/-- A node that proves any instance runs a task, or has a held one stand for it. -/
theorem of_wildcard (h : Form r c q db n) {x : String} (ha : n.atom = .resource (.wildcard x)) :
    (n.kind = .task ∧ ∃ t ∈ c.tasks, t.output = x ∧
        ∃ first, n.children = [first] ∧ first.atom = .resource (.wildcard t.input)) ∨
      (n.kind = .generalization ∧ ∃ t ∈ q.inputTuples, t.type = x ∧
        ∃ i, n.children = [⟨.resource t, i, .inputFact, []⟩]) := by
  have hnamed : ∀ t : Tuple, Named r t → n.atom ≠ .resource t := by
    intro t hname hatom
    rw [ha] at hatom
    injection hatom with hatom
    exact hname.ne_generalize (.wildcard x) hatom.symm
  cases h with
  | task ht hfirst _ =>
    cases ha
    exact Or.inl ⟨rfl, _, ht, rfl, _, rfl, hfirst⟩
  | generalization ht _ =>
    cases ha
    exact Or.inr ⟨rfl, _, ht, rfl, _, rfl⟩
  | fact _ hname _ => exact absurd rfl (hnamed _ hname)
  | assignment _ hname _ _ _ => exact absurd rfl (hnamed _ hname)
  | produced _ _ hname _ _ _ _ _ => exact absurd rfl (hnamed _ hname)
  | described _ _ hname _ _ _ => exact absurd rfl (hnamed _ hname)
  | allDependencies _ _ _ _ _ _ => cases ha
  | descriptor _ _ _ _ _ _ _ _ _ => cases ha

/-- A node that proves a property runs a descriptor on its first child. -/
theorem of_property (h : Form r c q db n) {p : String} {t : Tuple} (ha : n.atom = .property p t) :
    ∃ (d : Descriptor) (first : Derivation) (rest : List Derivation) (input : Tuple),
      n.children = first :: rest ∧ first.atom = .resource input ∧ input.type = d.task.input ∧
      d.task.output = t.type ∧ t.isWildcard = false ∧
      step? db n = some ⟨d.task, .descriptor d.name, first.home, t⟩ := by
  cases h with
  | descriptor _ hname hin hout hfirst _ _ _ hstep =>
    cases ha
    exact ⟨_, _, _, _, rfl, hfirst, hin, hout, hname.2, hstep⟩
  | _ => cases ha

/-- A node that proves an aggregate has what some entry for the instance asks for. -/
theorem of_aggregate (h : Form r c q db n) {t : Tuple} (ha : n.atom = .allDependencies t) :
    n.kind = .allDependencies ∧ ∃ e ∈ q.resources, e.subject = t ∧ ∃ deps : List Tuple,
      n.children.map Derivation.atom = e.properties ++ deps.map .resource := by
  cases h with
  | allDependencies he _ _ _ hchildren _ =>
    cases ha
    exact ⟨rfl, _, he, rfl, _, hchildren⟩
  | _ => cases ha

/-- What a node asks for: resources; properties, if it proves an aggregate; and the
    aggregate of the instance that it proves, if that is not held. -/
theorem child_cases (h : Form r c q db n) {m : Derivation} (hm : m ∈ n.children) :
    (∃ t, m.atom = .resource t) ∨
      (∃ p t, m.atom = .property p t ∧ n.atom = .allDependencies t) ∨
      ∃ t, m.atom = .allDependencies t ∧ n.atom = .resource t ∧ t ∉ q.inputTuples := by
  cases h with
  | fact _ _ _ => cases hm
  | task _ hfirst _ => exact Or.inl ⟨_, List.mem_singleton.1 hm ▸ hfirst⟩
  | @generalization t _ _ _ _ =>
    rw [List.mem_singleton.1 hm]
    exact Or.inl ⟨t, rfl⟩
  | assignment _ _ hfirst _ _ => exact Or.inl ⟨_, List.mem_singleton.1 hm ▸ hfirst⟩
  | produced _ hnot _ hfirst _ haggregate _ _ =>
    rcases List.mem_cons.1 hm with rfl | hm
    · exact Or.inl ⟨_, hfirst⟩
    · exact Or.inr (Or.inr ⟨_, List.mem_singleton.1 hm ▸ haggregate, rfl, hnot⟩)
  | described _ hnot _ haggregate _ _ =>
    exact Or.inr (Or.inr ⟨_, List.mem_singleton.1 hm ▸ haggregate, rfl, hnot⟩)
  | @allDependencies e _ _ deps _ _ _ _ hchildren _ =>
    have hmem : m.atom ∈ e.properties ++ deps.map Atom.resource := by
      rw [← hchildren]
      exact List.mem_map_of_mem hm
    rcases List.mem_append.1 hmem with hmem | hmem
    · obtain ⟨d, -, hd⟩ := List.mem_map.1 hmem
      exact Or.inr (Or.inl ⟨d.1, e.subject, hd.symm, rfl⟩)
    · obtain ⟨u, -, hu⟩ := List.mem_map.1 hmem
      exact Or.inl ⟨u, hu.symm⟩
  | @descriptor _ _ _ _ _ _ _ extra _ _ _ _ hfirst _ _ hrest _ =>
    rcases List.mem_cons.1 hm with rfl | hm
    · exact Or.inl ⟨_, hfirst⟩
    · have hmem : m.atom ∈ extra.map Atom.resource := by
        rw [← hrest]
        exact List.mem_map_of_mem hm
      obtain ⟨u, -, hu⟩ := List.mem_map.1 hmem
      exact Or.inl ⟨u, hu.symm⟩

/-- A property is asked for by the aggregate of its instance only. -/
theorem aggregate_of_property (h : Form r c q db n) {m : Derivation} (hm : m ∈ n.children)
    {p : String} {t : Tuple} (hp : m.atom = .property p t) : n.atom = .allDependencies t := by
  rcases h.child_cases hm with ⟨u, hu⟩ | ⟨p', u, hu, hn⟩ | ⟨u, hu, -⟩
  · cases hp.symm.trans hu
  · cases hp.symm.trans hu
    exact hn
  · cases hp.symm.trans hu

/-- An aggregate is asked for by its instance only, which is not held. -/
theorem resource_of_aggregate (h : Form r c q db n) {m : Derivation} (hm : m ∈ n.children)
    {t : Tuple} (ha : m.atom = .allDependencies t) :
    n.atom = .resource t ∧ t ∉ q.inputTuples := by
  rcases h.child_cases hm with ⟨u, hu⟩ | ⟨p', u, hu, -⟩ | ⟨u, hu, hn⟩
  · cases ha.symm.trans hu
  · cases ha.symm.trans hu
  · cases ha.symm.trans hu
    exact hn

/-- A node with a step runs it on its first child, and writes what it proves. -/
theorem of_step (h : Form r c q db n) {s : Step} (hs : step? db n = some s) :
    (∃ first rest t, n.children = first :: rest ∧ first.atom = .resource t ∧
        t.type = s.task.input ∧ s.input = first.home) ∧
      s.output.type = s.task.output ∧
      (n.kind = .task ∧ s.kind = .task ∧ n.atom = .resource s.output ∧
          s.output.isWildcard = true ∨
        n.kind = .dependentDescriptor ∧ (∃ name, s.kind = .descriptor name) ∧
          (∃ p, n.atom = .property p s.output) ∧ s.output.isWildcard = false) := by
  cases h with
  | task _ hfirst hstep =>
    cases hs.symm.trans hstep
    exact ⟨⟨_, _, _, rfl, hfirst, rfl, rfl⟩, rfl, Or.inl ⟨rfl, rfl, rfl, rfl⟩⟩
  | descriptor _ hname hin hout hfirst _ _ _ hstep =>
    cases hs.symm.trans hstep
    exact ⟨⟨_, _, _, rfl, hfirst, hin, rfl⟩, hout.symm,
      Or.inr ⟨rfl, ⟨_, rfl⟩, ⟨_, rfl⟩, hname.2⟩⟩
  | fact _ _ hstep => cases hs.symm.trans hstep
  | generalization _ hstep => cases hs.symm.trans hstep
  | assignment _ _ _ _ hstep => cases hs.symm.trans hstep
  | produced _ _ _ _ _ _ _ hstep => cases hs.symm.trans hstep
  | described _ _ _ _ _ hstep => cases hs.symm.trans hstep
  | allDependencies _ _ _ _ _ hstep => cases hs.symm.trans hstep

end Form

end Query

end HornPlan
