/-
  HornPlan/Proofs/Query/Shape.lean
  ================================
  **The clauses that a document compiles to.**

  A document says little about the clauses of its database one by one, but each of
  them has one of seven shapes (`Shape`), with the entry of the document or the task
  of the catalog that it comes from.  `Reading.shape` goes through the sections and
  finds no other.  Head and body determine a clause, unless it is that of a task
  (`Shape.eq_of_key`).

  In the other direction, what a section contributes is in the database: the clause
  itself where its head and body determine it (`Reading.fact_mem`,
  `Reading.generalization_mem`, `Reading.assignment_mem`), and for a task a clause
  with the same ends (`Reading.exists_task`).
-/
import HornPlan.Proofs.Database.Clauses
import HornPlan.Proofs.Query.Reading

namespace HornPlan

/-- The instance that an entry of the resources section declares. -/
def Entry.subject (e : Entry ResourceSpec) : Tuple := Query.instanceOf e.type e.spec.id

/-- The properties that an entry of the resources section asks for. -/
def Entry.properties (e : Entry ResourceSpec) : List Atom :=
  e.spec.descriptors.map fun d => .property d.1 e.subject

/-- The instances that an entry of the resources section depends on. -/
def Entry.dependencies (e : Entry ResourceSpec) : List Tuple :=
  e.spec.dependencies.map fun d => Query.instanceOf d.type d.spec.id

namespace Query

variable {r : Registry} {c : Catalog} {q : Query}

/-- An instance of a registered type. -/
def Named (r : Registry) (t : Tuple) : Prop := r.contains t.type = true ∧ t.isWildcard = false

theorem Named.ne_generalize {t : Tuple} (h : Named r t) (s : Tuple) : t ≠ s.generalize := by
  rintro rfl
  cases h.2

theorem named_instanceOf {type : String} {id : UInt32} (hreg : r.contains type = true)
    (hid : id ≠ 0) : Named r (instanceOf type id) :=
  ⟨hreg, isWildcard_instanceOf hid⟩

/-! ### Shapes -/

/-- What a clause of a compiled database looks like. -/
inductive Shape (r : Registry) (c : Catalog) (q : Query) : Clause → Prop
  | inputFact {t : Tuple} (ht : t ∈ q.inputTuples) (hname : Named r t) : Shape r c q (.inputFact t)
  | generalization {t : Tuple} (ht : t ∈ q.inputTuples) (hname : Named r t) :
    Shape r c q (.generalization t)
  | descriptor {e : Entry ResourceSpec} {name : String} {d : Descriptor} {input : Tuple}
    {extra : List Tuple} (he : e ∈ q.resources) (hname : Named r e.subject)
    (hd : c.descriptor? name = some d) (hasked : name ∈ e.spec.descriptors.map Prod.fst)
    (hin : input.type = d.task.input) (hout : d.task.output = e.type) (hinput : Named r input)
    (hextra : ∀ t ∈ extra, Named r t) :
    Shape r c q (.dependentDescriptor (.ofDescriptor d input e.subject) name (extra.map .resource))
  | allDependencies {e : Entry ResourceSpec} {deps : List Tuple} (he : e ∈ q.resources)
    (hname : Named r e.subject) (hdeps : ∀ t ∈ deps, Named r t)
    (hsome : e.properties ++ deps.map .resource ≠ []) :
    Shape r c q (.allDependencies e.subject (e.properties ++ deps.map .resource))
  | completion {e : Entry ResourceSpec} (he : e ∈ q.resources) (hname : Named r e.subject) :
    Shape r c q (.completion e.subject e.properties.isEmpty)
  | assignment {t : Tuple} (hname : Named r t) : Shape r c q (.assignment t)
  | task {t : Task} (ht : t ∈ c.tasks) (hcheck : r.checkTask t = .ok ()) : Shape r c q (.ofTask t)

/-! ### Heads and bodies that determine a clause -/

namespace Shape

variable {cl : Clause} {t : Tuple}

theorem eq_inputFact (h : Shape r c q cl) (hkey : cl.key = (Clause.inputFact t).key) :
    cl = .inputFact t := by
  have hhead : cl.head = .resource t := congrArg Prod.fst hkey
  have hbody : cl.body = [] := congrArg Prod.snd hkey
  cases h with
  | inputFact _ _ =>
    injection hhead with hhead
    rw [hhead]
  | allDependencies _ _ _ hsome => exact absurd hbody hsome
  | completion _ _ => simp [Clause.completion] at hbody
  | generalization _ _ => cases hbody
  | descriptor _ _ _ _ _ _ _ _ => cases hbody
  | assignment _ => cases hbody
  | task _ _ => cases hbody

theorem eq_generalization (h : Shape r c q cl) (ht : Named r t)
    (hkey : cl.key = (Clause.generalization t).key) : cl = .generalization t := by
  have hhead : cl.head = .resource t.generalize := congrArg Prod.fst hkey
  have hbody : cl.body = [.resource t] := congrArg Prod.snd hkey
  cases h with
  | generalization _ _ =>
    injection hbody with hbody
    injection hbody with hbody
    rw [hbody]
  | inputFact _ _ => cases hbody
  | descriptor _ _ _ _ _ _ _ _ => cases hhead
  | allDependencies _ _ _ _ => cases hhead
  | completion _ hname =>
    injection hhead with hhead
    exact absurd hhead (hname.ne_generalize t)
  | assignment hname =>
    injection hhead with hhead
    exact absurd hhead (hname.ne_generalize t)
  | task _ _ =>
    injection hbody with hbody
    injection hbody with hbody
    exact absurd hbody.symm (ht.ne_generalize (.wildcard _))

theorem eq_assignment (h : Shape r c q cl) (ht : Named r t)
    (hkey : cl.key = (Clause.assignment t).key) : cl = .assignment t := by
  have hhead : cl.head = .resource t := congrArg Prod.fst hkey
  have hbody : cl.body = [.resource t.generalize] := congrArg Prod.snd hkey
  cases h with
  | assignment _ =>
    injection hhead with hhead
    rw [hhead]
  | inputFact _ _ => cases hbody
  | generalization _ hname =>
    injection hbody with hbody
    injection hbody with hbody
    exact absurd hbody (hname.ne_generalize t)
  | descriptor _ _ _ _ _ _ _ _ => cases hhead
  | allDependencies _ _ _ _ => cases hhead
  | @completion e _ _ =>
    -- the aggregate is the last atom of the body
    have hlast : (Clause.completion e.subject e.properties.isEmpty).body.getLast? =
        some (.allDependencies e.subject) := List.getLast?_concat
    rw [hbody] at hlast
    cases hlast
  | task _ _ =>
    injection hhead with hhead
    exact absurd hhead.symm (ht.ne_generalize (.wildcard _))

theorem eq_ofTask (h : Shape r c q cl) {task : Task} (hkey : cl.key = (Clause.ofTask task).key) :
    ∃ task', cl = .ofTask task' ∧ task'.input = task.input ∧ task'.output = task.output := by
  have hhead : cl.head = .resource (.wildcard task.output) := congrArg Prod.fst hkey
  have hbody : cl.body = [.resource (.wildcard task.input)] := congrArg Prod.snd hkey
  cases h with
  | @task task' _ _ =>
    injection hhead with hhead
    injection hbody with hbody
    injection hbody with hbody
    exact ⟨task', rfl, congrArg Tuple.type hbody, congrArg Tuple.type hhead⟩
  | inputFact _ _ => cases hbody
  | generalization _ hname =>
    injection hbody with hbody
    injection hbody with hbody
    exact absurd hbody (hname.ne_generalize (.wildcard _))
  | descriptor _ _ _ _ _ _ _ _ => cases hhead
  | allDependencies _ _ _ _ => cases hhead
  | completion _ hname =>
    injection hhead with hhead
    exact absurd hhead (hname.ne_generalize (.wildcard _))
  | assignment hname =>
    injection hhead with hhead
    exact absurd hhead (hname.ne_generalize (.wildcard _))

theorem eq_descriptor (h : Shape r c q cl) {name : String} {d : Descriptor} {input : Tuple}
    {extra : List Atom} (hd : c.descriptor? name = some d)
    (hkey : cl.key = (Clause.dependentDescriptor (.ofDescriptor d input t) name extra).key) :
    cl = .dependentDescriptor (.ofDescriptor d input t) name extra := by
  have hhead : cl.head = .property name t := congrArg Prod.fst hkey
  have hbody : cl.body = .resource input :: extra := congrArg Prod.snd hkey
  cases h with
  | @descriptor e name' d' input' extra' _ _ hd' _ _ _ _ _ =>
    obtain ⟨hname, hsubject⟩ : name' = name ∧ e.subject = t := Atom.property.inj hhead
    obtain ⟨hinput, hextra⟩ : input' = input ∧ extra'.map .resource = extra := by
      simpa [Clause.dependentDescriptor, Step.ofDescriptor] using hbody
    -- the catalog has one descriptor of a name, so the step is determined too
    rw [hname, hd] at hd'
    injection hd' with hd'
    rw [hname, ← hd', hinput, hsubject, hextra]
  | _ => cases hhead

theorem eq_allDependencies (h : Shape r c q cl) {requirements : List Atom}
    (hkey : cl.key = (Clause.allDependencies t requirements).key) :
    cl = .allDependencies t requirements := by
  have hhead : cl.head = .allDependencies t := congrArg Prod.fst hkey
  have hbody : cl.body = requirements := congrArg Prod.snd hkey
  cases h with
  | allDependencies _ _ _ _ =>
    injection hhead with hsubject
    rw [← hbody, ← hsubject]
    rfl
  | _ => cases hhead

theorem eq_completion (h : Shape r c q cl) {needsProducer : Bool}
    (hkey : cl.key = (Clause.completion t needsProducer).key) :
    cl = .completion t needsProducer := by
  have hhead : cl.head = .resource t := congrArg Prod.fst hkey
  have hbody : cl.body = (Clause.completion t needsProducer).body := congrArg Prod.snd hkey
  have hlast : cl.body.getLast? = some (.allDependencies t) := by
    rw [hbody]
    exact List.getLast?_concat
  cases h with
  | @completion e _ _ =>
    injection hhead with hsubject
    rw [hsubject] at hbody ⊢
    -- the body is longer by one atom if a producer is needed
    generalize e.properties.isEmpty = needs at hbody ⊢
    cases needs <;> cases needsProducer
    · rfl
    · cases hbody
    · cases hbody
    · rfl
  | allDependencies _ _ _ _ => cases hhead
  | descriptor _ _ _ _ _ _ _ _ => cases hhead
  | _ => cases hlast

/-- **Head and body determine a clause that is not that of a task.** -/
theorem eq_of_key {cl' : Clause} (h : Shape r c q cl) (h' : Shape r c q cl')
    (hkind : cl'.kind ≠ .task) (hkey : cl.key = cl'.key) : cl = cl' := by
  cases h' with
  | inputFact _ _ => exact h.eq_inputFact hkey
  | generalization _ hname => exact h.eq_generalization hname hkey
  | descriptor _ _ hd _ _ _ _ _ => exact h.eq_descriptor hd hkey
  | allDependencies _ _ _ _ => exact h.eq_allDependencies hkey
  | completion _ _ => exact h.eq_completion hkey
  | assignment hname => exact h.eq_assignment hname hkey
  | task _ _ => exact absurd rfl hkind

end Shape

/-! ### Resources -/

theorem takeParam?_eq_some {type : String} {ts : List Tuple} {t : Tuple} {others : List Tuple}
    (h : takeParam? type ts = some (t, others)) : t.type = type ∧ ts.Perm (t :: others) := by
  induction ts generalizing others with
  | nil => cases h
  | cons s rest ih =>
    unfold takeParam? at h
    split at h
    · rename_i hs
      cases h
      exact ⟨hs, List.Perm.refl _⟩
    · obtain ⟨⟨found, rest'⟩, hrest, heq⟩ := Option.map_eq_some_iff.1 h
      cases heq
      obtain ⟨htype, hperm⟩ := ih hrest
      exact ⟨htype, (hperm.cons s).trans (List.Perm.swap t s rest')⟩

theorem mem_bindDescriptor {subject : Tuple} {name : String} {params : List Tuple}
    {cs : List Clause} (h : bindDescriptor c subject name params = .ok cs) {cl : Clause}
    (hcl : cl ∈ cs) :
    ∃ d input extra, c.descriptor? name = some d ∧ d.task.output = subject.type ∧
      input.type = d.task.input ∧ params.Perm (input :: extra) ∧
      cl = .dependentDescriptor (.ofDescriptor d input subject) name (extra.map .resource) := by
  unfold bindDescriptor at h
  split at h
  · cases h
    cases hcl
  · rename_i d hd
    split at h
    · rename_i hout
      split at h
      · rename_i input extra hparam
        cases h
        obtain ⟨hin, hperm⟩ := takeParam?_eq_some hparam
        exact ⟨d, input, extra, hd, hout, hin, hperm, List.mem_singleton.1 hcl⟩
      · cases h
    · cases h

/-- References that are read are instances of registered types. -/
theorem named_of_references {context : String} {es : List (Entry Reference)} {ts : List Tuple}
    (h : es.map (reference r context) = ts.map .ok) : ∀ t ∈ ts, Named r t := by
  intro t ht
  obtain ⟨e, -, he⟩ := exists_of_map_eq h ht
  obtain ⟨hreg, hid, rfl⟩ := reference_eq_ok.1 he
  exact named_instanceOf hreg hid

/-- References are read as the instances that they denote. -/
theorem eq_instances_of_references {context : String} {es : List (Entry Reference)}
    {ts : List Tuple} (h : es.map (reference r context) = ts.map .ok) :
    ts = es.map fun e => instanceOf e.type e.spec.id := by
  rw [← map_eq_of_map_eq h fun e t he => (reference_eq_ok.1 he).2.2]
  exact (List.map_id ts).symm

theorem compileDescriptor_eq_ok {subject : Tuple} {descriptor : String × DescriptorSpec}
    {k : Contribution} (h : compileDescriptor r c subject descriptor = .ok k) :
    (∀ t ∈ k.references, Named r t) ∧
      bindDescriptor c subject descriptor.1 k.references = .ok k.clauses := by
  obtain ⟨params, hparams, h⟩ := bind_eq_ok.1 h
  obtain ⟨cs, hcs, h⟩ := bind_eq_ok.1 h
  cases h
  refine ⟨?_, hcs⟩
  intro t ht
  obtain ⟨p, -, hp⟩ := exists_of_map_eq (mapM_eq_ok.1 hparams) ht
  obtain ⟨hreg, hid, rfl⟩ := reference_eq_ok.1 hp
  exact named_instanceOf hreg hid

/-- What an entry of the resources section contributes when it is read. -/
theorem compileResource_eq_ok {e : Entry ResourceSpec} {t : Tuple} {k : Contribution}
    (h : compileResource r c e = .ok (t, k)) :
    t = e.subject ∧ Named r e.subject ∧ ∃ bound : List Contribution,
      e.spec.descriptors.map (compileDescriptor r c e.subject) = bound.map .ok ∧
      (∀ d ∈ e.dependencies, Named r d) ∧
      k.clauses = bound.flatMap Contribution.clauses
        ++ completionClauses e.subject e.properties (e.dependencies.map .resource) ∧
      k.references = bound.flatMap Contribution.references ++ e.dependencies ∧
      k.roots = if e.properties.isEmpty then [e.subject.type] else [] := by
  obtain ⟨subject, hsubject, h⟩ := bind_eq_ok.1 h
  obtain ⟨bound, hbound, h⟩ := bind_eq_ok.1 h
  obtain ⟨deps, hdeps, h⟩ := bind_eq_ok.1 h
  obtain ⟨hreg, hid, rfl⟩ := tuple_eq_ok.1 hsubject
  cases h
  have hread := mapM_eq_ok.1 hdeps
  have heq : deps = e.dependencies := eq_instances_of_references hread
  subst heq
  exact ⟨rfl, named_instanceOf hreg hid, bound, mapM_eq_ok.1 hbound, named_of_references hread,
    rfl, rfl, rfl⟩

/-- The clauses of an entry of the resources section have one of the shapes, other than
    that of a task. -/
theorem shape_of_compileResource {e : Entry ResourceSpec} (he : e ∈ q.resources) {t : Tuple}
    {k : Contribution} (h : compileResource r c e = .ok (t, k)) {cl : Clause}
    (hcl : cl ∈ k.clauses) : Shape r c q cl ∧ cl.kind ≠ .task := by
  obtain ⟨-, hname, bound, hbound, hdeps, hclauses, -⟩ := compileResource_eq_ok h
  rw [hclauses] at hcl
  rcases List.mem_append.1 hcl with hcl | hcl
  · obtain ⟨b, hb, hcl⟩ := List.mem_flatMap.1 hcl
    obtain ⟨descriptor, hdescriptor, hb⟩ := exists_of_map_eq hbound hb
    obtain ⟨hparams, hbind⟩ := compileDescriptor_eq_ok hb
    obtain ⟨d, input, extra, hd, hout, hin, hperm, rfl⟩ := mem_bindDescriptor hbind hcl
    have hmem : ∀ t ∈ input :: extra, Named r t := by
      intro t ht
      exact hparams t (hperm.mem_iff.2 ht)
    exact ⟨.descriptor he hname hd (List.mem_map_of_mem hdescriptor) hin hout
      (hmem input List.mem_cons_self) fun t ht => hmem t (List.mem_cons_of_mem _ ht), nofun⟩
  · unfold completionClauses at hcl
    split at hcl
    · rw [List.mem_singleton.1 hcl]
      exact ⟨.assignment hname, nofun⟩
    · rename_i hsome
      rcases List.mem_cons.1 hcl with rfl | hcl
      · refine ⟨.allDependencies he hname hdeps fun hnil => hsome ?_, nofun⟩
        obtain ⟨hprops, hdeps⟩ := List.append_eq_nil_iff.1 hnil
        rw [hprops, hdeps]
        exact ⟨rfl, rfl⟩
      · rw [List.mem_singleton.1 hcl]
        exact ⟨.completion he hname, nofun⟩

/-! ### Whole documents -/

namespace Reading

variable (s : Reading r c q)

/-- An input that has been read comes from an entry, as its instance and a value of
    its type. -/
theorem of_mem_inputs {i : Tuple × Resource} (hi : i ∈ s.inputs) :
    Named r i.1 ∧ i.2.type = i.1.type := by
  obtain ⟨e, -, he⟩ := exists_of_map_eq s.inputs_eq hi
  obtain ⟨hreg, hid, ht, hv⟩ := compileInput_eq_ok he
  rw [ht]
  rw [ht] at hv
  exact ⟨named_instanceOf hreg hid, hv⟩

theorem held_eq : s.held = q.inputTuples :=
  map_eq_of_map_eq s.inputs_eq fun _ _ h => (compileInput_eq_ok h).2.2.1

theorem outputs_eq_outputTuples : s.outputs = q.outputTuples :=
  eq_instances_of_references s.outputs_eq

theorem named_of_mem_held {t : Tuple} (ht : t ∈ s.held) : Named r t := by
  obtain ⟨i, hi, rfl⟩ := List.mem_map.1 ht
  exact (s.of_mem_inputs hi).1

/-- What is referred to is an instance of a registered type. -/
theorem named_of_mem_loose {t : Tuple} (ht : t ∈ s.loose) : Named r t := by
  obtain ⟨ht, -⟩ := List.mem_filter.1 ht
  rcases List.mem_append.1 ht with ht | ht
  · obtain ⟨⟨t', k⟩, hd, ht⟩ := List.mem_flatMap.1 ht
    obtain ⟨e, -, he⟩ := exists_of_map_eq s.declared_eq hd
    obtain ⟨-, -, bound, hbound, hdeps, -, hrefs, -⟩ := compileResource_eq_ok he
    rw [hrefs] at ht
    rcases List.mem_append.1 ht with ht | ht
    · obtain ⟨b, hb, ht⟩ := List.mem_flatMap.1 ht
      obtain ⟨descriptor, -, hb⟩ := exists_of_map_eq hbound hb
      exact (compileDescriptor_eq_ok hb).1 t ht
    · exact hdeps t ht
  · exact named_of_references s.outputs_eq t ht

/-- The clauses that the document demands come from its sections. -/
theorem mem_demand {cl : Clause} (h : cl ∈ s.demand.clauses) :
    (∃ i ∈ s.inputs, cl = .inputFact i.1 ∨ cl = .generalization i.1) ∨
      (∃ d ∈ s.declared, cl ∈ d.2.clauses) ∨ ∃ t ∈ s.loose, cl = .assignment t := by
  rcases List.mem_append.1 h with h | h
  · rcases List.mem_append.1 h with h | h
    · obtain ⟨i, hi, h⟩ := List.mem_flatMap.1 h
      rcases List.mem_cons.1 h with h | h
      · exact Or.inl ⟨i, hi, Or.inl h⟩
      · exact Or.inl ⟨i, hi, Or.inr (List.mem_singleton.1 h)⟩
    · exact Or.inr (Or.inl (List.mem_flatMap.1 h))
  · obtain ⟨t, ht, rfl⟩ := List.mem_map.1 h
    exact Or.inr (Or.inr ⟨t, ht, rfl⟩)

/-- The clauses of a database for the document are demanded, or are those of tasks. -/
theorem mem_database {tasks : List Task} {cl : Clause}
    (h : cl ∈ (s.demand.database tasks).clauses) :
    cl ∈ s.demand.clauses ∨ ∃ t ∈ tasks, cl = .ofTask t := by
  rcases Database.mem_pushAll h with h | h
  · cases h
  rcases List.mem_append.1 h with h | h
  · exact Or.inl h
  · obtain ⟨t, ht, rfl⟩ := List.mem_map.1 h
    exact Or.inr ⟨t, ht, rfl⟩

/-- The clauses of the database come from the document or from the lineage. -/
theorem mem_clauses {cl : Clause} (h : cl ∈ s.database.clauses) :
    (∃ i ∈ s.inputs, cl = .inputFact i.1 ∨ cl = .generalization i.1) ∨
      (∃ d ∈ s.declared, cl ∈ d.2.clauses) ∨
      (∃ t ∈ s.loose, cl = .assignment t) ∨ ∃ t ∈ s.tasks, cl = .ofTask t := by
  rcases s.mem_database h with h | h
  · rcases s.mem_demand h with h | h | h
    · exact Or.inl h
    · exact Or.inr (Or.inl h)
    · exact Or.inr (Or.inr (Or.inl h))
  · exact Or.inr (Or.inr (Or.inr h))

theorem shape_of_demand {cl : Clause} (h : cl ∈ s.demand.clauses) :
    Shape r c q cl ∧ cl.kind ≠ .task := by
  rcases s.mem_demand h with ⟨i, hi, hcl⟩ | ⟨d, hd, hcl⟩ | ⟨t, ht, rfl⟩
  · have hheld : i.1 ∈ q.inputTuples := s.held_eq ▸ List.mem_map_of_mem hi
    rcases hcl with rfl | rfl
    · exact ⟨.inputFact hheld (s.of_mem_inputs hi).1, nofun⟩
    · exact ⟨.generalization hheld (s.of_mem_inputs hi).1, nofun⟩
  · obtain ⟨e, he, hread⟩ := exists_of_map_eq s.declared_eq hd
    exact shape_of_compileResource he hread hcl
  · exact ⟨.assignment (s.named_of_mem_loose ht), nofun⟩

/-- **Every clause of a compiled database has one of the shapes.** -/
theorem shape (htasks : ∀ t ∈ s.tasks, r.checkTask t = .ok ()) :
    ∀ cl ∈ s.database.clauses, Shape r c q cl := by
  intro cl hcl
  rcases s.mem_database hcl with hcl | ⟨t, ht, rfl⟩
  · exact (s.shape_of_demand hcl).1
  · exact .task (List.mem_filter.1 ht).1 (htasks t ht)

/-! ### What a section contributes -/

theorem exists_key {cl : Clause} (h : cl ∈ s.demand.clauses ∨ ∃ t ∈ s.tasks, cl = .ofTask t) :
    ∃ d ∈ s.database.clauses, d.key = cl.key := by
  apply Database.exists_key_pushAll
  rcases h with h | ⟨t, ht, rfl⟩
  · exact List.mem_append_left _ h
  · exact List.mem_append_right _ (List.mem_map_of_mem ht)

variable (htasks : ∀ t ∈ s.tasks, r.checkTask t = .ok ())
include htasks

/-- A held instance is stated by a fact. -/
theorem fact_mem {t : Tuple} (ht : t ∈ s.held) : Clause.inputFact t ∈ s.database.clauses := by
  obtain ⟨i, hi, rfl⟩ := List.mem_map.1 ht
  have hmem : Clause.inputFact i.1 ∈ s.demand.clauses :=
    List.mem_append_left _ (List.mem_append_left _
      (List.mem_flatMap.2 ⟨i, hi, List.mem_cons_self⟩))
  obtain ⟨d, hd, hkey⟩ := s.exists_key (Or.inl hmem)
  exact (s.shape htasks d hd).eq_inputFact hkey ▸ hd

/-- A held instance stands for any instance. -/
theorem generalization_mem {t : Tuple} (ht : t ∈ s.held) :
    Clause.generalization t ∈ s.database.clauses := by
  have hname := s.named_of_mem_held ht
  obtain ⟨i, hi, rfl⟩ := List.mem_map.1 ht
  have hmem : Clause.generalization i.1 ∈ s.demand.clauses :=
    List.mem_append_left _ (List.mem_append_left _
      (List.mem_flatMap.2 ⟨i, hi, List.mem_cons_of_mem _ List.mem_cons_self⟩))
  obtain ⟨d, hd, hkey⟩ := s.exists_key (Or.inl hmem)
  exact (s.shape htasks d hd).eq_generalization hname hkey ▸ hd

/-- What is only referred to may be any instance. -/
theorem assignment_mem {t : Tuple} (ht : t ∈ s.loose) :
    Clause.assignment t ∈ s.database.clauses := by
  have hmem : Clause.assignment t ∈ s.demand.clauses :=
    List.mem_append_right _ (List.mem_map_of_mem ht)
  obtain ⟨d, hd, hkey⟩ := s.exists_key (Or.inl hmem)
  exact (s.shape htasks d hd).eq_assignment (s.named_of_mem_loose ht) hkey ▸ hd

/-- For a task of the lineage there is a task clause between the same types. -/
theorem exists_task {t : Task} (ht : t ∈ s.tasks) :
    ∃ t', Clause.ofTask t' ∈ s.database.clauses ∧ t'.input = t.input ∧ t'.output = t.output := by
  obtain ⟨d, hd, hkey⟩ := s.exists_key (Or.inr ⟨t, ht, rfl⟩)
  obtain ⟨t', rfl, hends⟩ := (s.shape htasks d hd).eq_ofTask hkey
  exact ⟨t', hd, hends⟩

end Reading

end Query

end HornPlan
