/-
  HornPlan/Proofs/Query/Acceptance.lean
  =====================================
  **Which documents compile, and what is reported about the others.**

  A document compiles if it is `Acceptable`, which says what inputs, resources, outputs
  and the catalog have to be like.  `Query.rules` puts the same into a list of rules, in
  the order of the document: inputs, resources (for an entry its name, then for each
  descriptor its params and its binding, then the dependencies), outputs, and tasks.
  Each part of the compiler goes by its part of the list.

  The tasks need care.  Which of them have to be registered depends on what is referred
  to without being held or declared, and that is known only when all sections have been
  read; but then it is what can be told from the document alone (`Query.wantedTypes`).

  Specification, section 4.3, step 3, and section 7: which documents `compile` refuses,
  and why.
-/
import HornPlan.Proofs.Catalog.Lineage
import HornPlan.Proofs.Query.Rules
import HornPlan.Proofs.Query.Shape

namespace HornPlan

open Rule

variable {r : Registry} {c : Catalog} {q : Query}

/-! ### What a document refers to -/

/-- The instances that an entry of the resources section refers to. -/
def Entry.references (e : Entry ResourceSpec) : List Tuple :=
  (e.spec.descriptors.flatMap fun d =>
    d.2.params.map fun p => Query.instanceOf p.2.type p.2.spec.id) ++ e.dependencies

namespace Query

/-- The instances that a document refers to without holding or declaring them. -/
def looseTuples (q : Query) : List Tuple :=
  (q.resources.flatMap Entry.references ++ q.outputTuples).filter
    (· ∉ q.inputTuples ++ q.resources.map Entry.subject)

/-- The types of which an instance has to be made: those of entries without descriptors,
    and of what is referred to without being held or declared. -/
def wantedTypes (q : Query) : List String :=
  (q.resources.filter (·.spec.descriptors.isEmpty)).map Entry.type ++ q.looseTuples.map Tuple.type

theorem references_of_compileDescriptor {subject : Tuple} {d : String × DescriptorSpec}
    {k : Contribution} (h : compileDescriptor r c subject d = .ok k) :
    k.references = d.2.params.map fun p => instanceOf p.2.type p.2.spec.id := by
  obtain ⟨params, hparams, h⟩ := bind_eq_ok.1 h
  obtain ⟨cs, -, h⟩ := bind_eq_ok.1 h
  cases h
  rw [← map_eq_of_map_eq (mapM_eq_ok.1 hparams) fun p t hp => (reference_eq_ok.1 hp).2.2]
  exact (List.map_id params).symm

theorem references_of_compileResource {e : Entry ResourceSpec} {t : Tuple} {k : Contribution}
    (h : compileResource r c e = .ok (t, k)) : k.references = e.references := by
  obtain ⟨-, -, bound, hbound, -, -, hrefs, -⟩ := compileResource_eq_ok h
  rw [hrefs, Entry.references, List.flatMap_def, List.flatMap_def,
    map_eq_of_map_eq hbound fun _ _ => references_of_compileDescriptor]

namespace Reading

variable (s : Reading r c q)

theorem loose_eq : s.loose = q.looseTuples := by
  have hknown : s.declared.map Prod.fst = q.resources.map Entry.subject :=
    map_eq_of_map_eq s.declared_eq fun _ _ h => (compileResource_eq_ok h).1
  have hrefs : s.declared.map (fun d => d.2.references) = q.resources.map Entry.references :=
    map_eq_of_map_eq s.declared_eq fun _ _ => references_of_compileResource
  rw [loose, looseTuples, s.held_eq, hknown, s.outputs_eq_outputTuples, List.flatMap_def, hrefs,
    List.flatMap_def]

/-- What has to be made can be told from the document. -/
theorem roots_eq : s.demand.roots = q.wantedTypes := by
  have hroots : s.declared.map (fun d => d.2.roots) =
      q.resources.map fun e => if e.spec.descriptors.isEmpty then [e.type] else [] := by
    refine map_eq_of_map_eq s.declared_eq fun e d h => ?_
    obtain ⟨-, -, -, -, -, -, -, hroots⟩ := compileResource_eq_ok h
    rw [hroots, Entry.properties, List.isEmpty_map]
    rfl
  have hfilter : ∀ es : List (Entry ResourceSpec),
      (es.map fun e => if e.spec.descriptors.isEmpty then [e.type] else []).flatten =
        (es.filter (·.spec.descriptors.isEmpty)).map Entry.type := by
    intro es
    induction es with
    | nil => rfl
    | cons e es ih =>
      by_cases hnone : e.spec.descriptors.isEmpty = true <;> simp_all
  change (s.declared.flatMap fun d => d.2.roots) ++ s.loose.map Tuple.type = q.wantedTypes
  rw [wantedTypes, List.flatMap_def, hroots, hfilter, s.loose_eq]

end Reading

/-! ### Rules for instances and inputs -/

def instanceRules (r : Registry) (context type : String) (id : UInt32) : List Rule :=
  [⟨r.contains type = true, .unresolvedAlias type context⟩,
    ⟨id ≠ 0, .reservedInstanceId (context ++ " " ++ type)⟩]

def referenceRules (r : Registry) (context : String) (e : Entry Reference) : List Rule :=
  instanceRules r context e.type e.spec.id

def missingField (key : String) (type : ResourceType) (field : String) : Error :=
  .invalidArguments key ("missing field '" ++ field ++ "' required by " ++ type.name)

/-- The rules for the fields that a type declares. -/
def fieldRules (r : Registry) (key : String) (args : Fields) : List Rule :=
  match r.type? key with
  | none => []
  | some type => type.fields.map fun f => ⟨args.contains f = true, missingField key type f⟩

def inputRules (r : Registry) (e : Entry InputSpec) : List Rule :=
  let args := e.spec.args.getD []
  instanceRules r "input" e.type e.spec.id ++
    ⟨args ≠ [], .emptyArguments e.type e.spec.id⟩ :: fieldRules r e.type args

theorem tuple_decides (r : Registry) (context type : String) (id : UInt32) :
    Decides (instanceRules r context type id) (tuple r context type id) := by
  unfold tuple instanceRules
  by_cases hreg : r.contains type = true
  · rw [if_pos hreg]
    refine Decides.cons hreg (Decides.bind_ok ?_ fun _ => ⟨_, rfl⟩)
    unfold InstanceId.parse InstanceId.ofNumber?
    by_cases hid : id ≠ 0
    · rw [dif_pos hid]
      exact List.forall_mem_singleton.2 hid
    · rw [dif_neg hid]
      exact .here hid
  · rw [if_neg hreg]
    exact .here hreg

theorem reference_decides (r : Registry) (context : String) (e : Entry Reference) :
    Decides (referenceRules r context e) (reference r context e) :=
  tuple_decides r context e.type e.spec.id

theorem instantiate_decides {key : String} (hkey : r.contains key = true) (args : Fields) :
    Decides (fieldRules r key args) (r.instantiate key args) := by
  obtain ⟨type, htype⟩ := Option.isSome_iff_exists.1 hkey
  have hresolve : r.resolve key = .ok type := by rw [Registry.resolve, htype]
  rw [Registry.instantiate, hresolve, fieldRules, htype]
  apply Decides.of_find?
  · intro hnone
    exact ⟨⟨key, args⟩, by simp [bind, Except.bind, hnone]⟩
  · intro f hsome
    simp [bind, Except.bind, hsome, missingField]

theorem compileInput_decides (r : Registry) (e : Entry InputSpec) :
    Decides (inputRules r e) (compileInput r e) := by
  refine (tuple_decides r "input" e.type e.spec.id).bind fun t ht => ?_
  rcases hargs : e.spec.args with _ | _ | ⟨arg, args⟩
  · exact .here (by simp)
  · exact .here (by simp)
  · refine Decides.cons (List.cons_ne_nil arg args) ?_
    exact (instantiate_decides (tuple_eq_ok.1 ht).1 (arg :: args)).bind_ok fun _ => ⟨_, rfl⟩

/-! ### Rules for resources -/

/-- The rules for binding a descriptor, given the types of its params. -/
def bindingRules (c : Catalog) (subject : Tuple) (name : String) (types : List String) :
    List Rule :=
  match c.descriptor? name with
  | none => []
  | some d =>
    [⟨d.task.output = subject.type,
        .descriptorTypeMismatch name subject.text d.task.output subject.type⟩,
      ⟨d.task.input ∈ types,
        .descriptorTypeMismatch name subject.text d.task.input (", ".intercalate types)⟩]

def descriptorRules (r : Registry) (c : Catalog) (subject : Tuple)
    (d : String × DescriptorSpec) : List Rule :=
  (d.2.params.flatMap fun p => referenceRules r ("resource " ++ subject.text) p.2) ++
    bindingRules c subject d.1 (d.2.params.map fun p => p.2.type)

def resourceRules (r : Registry) (c : Catalog) (e : Entry ResourceSpec) : List Rule :=
  instanceRules r "resources" e.type e.spec.id ++
    (e.spec.descriptors.flatMap (descriptorRules r c e.subject) ++
      e.spec.dependencies.flatMap (referenceRules r ("resource " ++ e.subject.text)))

theorem takeParam?_eq_none {type : String} {ts : List Tuple} (h : takeParam? type ts = none) :
    type ∉ ts.map Tuple.type := by
  induction ts with
  | nil => exact List.not_mem_nil
  | cons t rest ih =>
    unfold takeParam? at h
    split at h
    · cases h
    · rename_i hne
      rw [List.map_cons, List.mem_cons]
      rintro (heq | hrest)
      · exact hne heq.symm
      · exact ih (Option.map_eq_none_iff.1 h) hrest

theorem bindDescriptor_decides (c : Catalog) (subject : Tuple) (name : String)
    (params : List Tuple) : Decides (bindingRules c subject name (params.map Tuple.type))
      (bindDescriptor c subject name params) := by
  unfold bindDescriptor bindingRules
  cases hd : c.descriptor? name with
  | none => exact nofun
  | some d =>
    dsimp only
    split
    · rename_i hout
      refine Decides.cons hout ?_
      split
      · rename_i input extra hparam
        obtain ⟨hin, hperm⟩ := takeParam?_eq_some hparam
        refine List.forall_mem_singleton.2 (List.mem_map.2 ⟨input, ?_, hin⟩)
        exact hperm.mem_iff.2 List.mem_cons_self
      · rename_i hparam
        exact .here (takeParam?_eq_none hparam)
    · rename_i hout
      exact .here hout

theorem compileDescriptor_decides (r : Registry) (c : Catalog) (subject : Tuple)
    (d : String × DescriptorSpec) :
    Decides (descriptorRules r c subject d) (compileDescriptor r c subject d) := by
  refine (Decides.mapM fun p _ => reference_decides r _ p.2).bind fun params hparams => ?_
  have htypes : params.map Tuple.type = d.2.params.map fun p => p.2.type :=
    map_eq_of_map_eq (mapM_eq_ok.1 hparams) fun p t hp => by rw [(reference_eq_ok.1 hp).2.2]; rfl
  rw [← htypes]
  exact (bindDescriptor_decides c subject d.1 params).bind_ok fun _ => ⟨_, rfl⟩

theorem compileResource_decides (r : Registry) (c : Catalog) (e : Entry ResourceSpec) :
    Decides (resourceRules r c e) (compileResource r c e) := by
  refine (tuple_decides r "resources" e.type e.spec.id).bind fun subject hsubject => ?_
  obtain ⟨-, -, rfl⟩ := tuple_eq_ok.1 hsubject
  refine (Decides.mapM fun d _ => compileDescriptor_decides r c _ d).bind fun bound _ => ?_
  exact (Decides.mapM fun d _ => reference_decides r _ d).bind_ok fun _ => ⟨_, rfl⟩

/-! ### Rules for tasks -/

/-- The rules for the types of a task, if chains of tasks lead on from it to some types. -/
def taskRules (r : Registry) (c : Catalog) (types : List String) (t : Task) : List Rule :=
  [t.input, t.output].map fun type =>
    ⟨(∃ rest, c.Chain types (t :: rest)) → r.contains type = true,
      .unresolvedAlias type ("task " ++ t.name)⟩

theorem checkedLineage_decides (r : Registry) (c : Catalog) (types : List String) :
    Decides (c.tasks.flatMap (taskRules r c types)) (c.checkedLineage r types) := by
  refine Decides.bind_ok (Decides.forM_filter ?_ ?_) fun _ => ⟨_, rfl⟩
  · intro t ht hout
    have hchain : ∃ rest, c.Chain types (t :: rest) :=
      Catalog.mem_lineage_iff_chain.1 (List.mem_filter.2 ⟨ht, hout⟩)
    have hrules : taskRules r c types t = [t.input, t.output].map fun type =>
        ⟨r.contains type = true, .unresolvedAlias type ("task " ++ t.name)⟩ := by
      simp [taskRules, hchain]
    rw [hrules]
    apply Decides.of_find?
    · intro hnone
      exact ⟨(), by rw [Registry.checkTask, hnone]⟩
    · intro type hsome
      rw [Registry.checkTask, hsome]
  · -- no chain leads on from a task that is off the lineage
    intro t _ hout k hk
    obtain ⟨type, -, rfl⟩ := List.mem_map.1 hk
    intro hchain
    have hmem := Catalog.mem_lineage_iff_chain.2 hchain
    rw [(List.mem_filter.1 hmem).2] at hout
    cases hout

/-! ### Whole documents -/

/-- What has to hold for a document to compile, in the order in which it is found out. -/
def rules (r : Registry) (c : Catalog) (q : Query) : List Rule :=
  (q.input.flatMap (inputRules r) ++ (q.resources.flatMap (resourceRules r c) ++
    q.output.flatMap (referenceRules r "output"))) ++ c.tasks.flatMap (taskRules r c q.wantedTypes)

theorem demand_decides (r : Registry) (c : Catalog) (q : Query) :
    Decides (q.input.flatMap (inputRules r) ++ (q.resources.flatMap (resourceRules r c) ++
      q.output.flatMap (referenceRules r "output"))) (q.demand r c) := by
  refine (Decides.mapM fun e _ => compileInput_decides r e).bind fun _ _ => ?_
  refine (Decides.mapM fun e _ => compileResource_decides r c e).bind fun _ _ => ?_
  exact (Decides.mapM fun e _ => reference_decides r _ e).bind_ok fun _ => ⟨_, rfl⟩

theorem compile_decides (r : Registry) (c : Catalog) (q : Query) :
    Decides (q.rules r c) (q.compile r c) := by
  refine (demand_decides r c q).bind fun d hd => ?_
  obtain ⟨s, rfl⟩ := demand_eq_ok.1 hd
  rw [s.roots_eq]
  exact (checkedLineage_decides r c q.wantedTypes).bind_ok fun _ => ⟨_, rfl⟩

/-! ### Acceptable documents -/

/-- An alias that is registered, with an id that is not zero. -/
def Denotes (r : Registry) (type : String) (id : UInt32) : Prop :=
  r.contains type = true ∧ id ≠ 0

/-- What inputs, resources, outputs and the catalog have to be like. -/
structure Acceptable (r : Registry) (c : Catalog) (q : Query) : Prop where
  inputs : ∀ e ∈ q.input, Denotes r e.type e.spec.id ∧ ∃ args, e.spec.args = some args ∧
    args ≠ [] ∧ ∀ type, r.type? e.type = some type → ∀ f ∈ type.fields, args.contains f = true
  resources : ∀ e ∈ q.resources, Denotes r e.type e.spec.id
  params : ∀ e ∈ q.resources, ∀ d ∈ e.spec.descriptors, ∀ p ∈ d.2.params,
    Denotes r p.2.type p.2.spec.id
  /-- A descriptor that the catalog knows describes the type of the entry, and is given
      something of the type that it works from. -/
  bindings : ∀ e ∈ q.resources, ∀ d ∈ e.spec.descriptors, ∀ known, c.descriptor? d.1 = some known →
    known.task.output = e.type ∧ ∃ p ∈ d.2.params, p.2.type = known.task.input
  dependencies : ∀ e ∈ q.resources, ∀ d ∈ e.spec.dependencies, Denotes r d.type d.spec.id
  outputs : ∀ e ∈ q.output, Denotes r e.type e.spec.id
  tasks : ∀ t ∈ c.tasks, (∃ rest, c.Chain q.wantedTypes (t :: rest)) → Catalog.Registered r t

theorem forall_instanceRules {context type : String} {id : UInt32} :
    (∀ k ∈ instanceRules r context type id, k.holds) ↔ Denotes r type id := by
  simp [instanceRules, Denotes]

theorem forall_fieldRules {key : String} {args : Fields} :
    (∀ k ∈ fieldRules r key args, k.holds) ↔
      ∀ type, r.type? key = some type → ∀ f ∈ type.fields, args.contains f = true := by
  unfold fieldRules
  cases r.type? key with
  | none => simp
  | some type => simp

theorem forall_inputRules {e : Entry InputSpec} :
    (∀ k ∈ inputRules r e, k.holds) ↔ Denotes r e.type e.spec.id ∧
      ∃ args, e.spec.args = some args ∧ args ≠ [] ∧
        ∀ type, r.type? e.type = some type → ∀ f ∈ type.fields, args.contains f = true := by
  simp only [inputRules, List.forall_mem_append, List.forall_mem_cons, forall_instanceRules,
    forall_fieldRules]
  refine and_congr_right fun _ => ?_
  cases e.spec.args <;> simp

theorem forall_bindingRules {subject : Tuple} {name : String} {types : List String} :
    (∀ k ∈ bindingRules c subject name types, k.holds) ↔ ∀ known, c.descriptor? name = some known →
      known.task.output = subject.type ∧ known.task.input ∈ types := by
  unfold bindingRules
  cases c.descriptor? name <;> simp

theorem forall_resourceRules {e : Entry ResourceSpec} :
    (∀ k ∈ resourceRules r c e, k.holds) ↔ Denotes r e.type e.spec.id ∧
      (∀ d ∈ e.spec.descriptors, (∀ p ∈ d.2.params, Denotes r p.2.type p.2.spec.id) ∧
        ∀ known, c.descriptor? d.1 = some known →
          known.task.output = e.type ∧ ∃ p ∈ d.2.params, p.2.type = known.task.input) ∧
      ∀ d ∈ e.spec.dependencies, Denotes r d.type d.spec.id := by
  simp only [resourceRules, descriptorRules, referenceRules, List.forall_mem_append,
    List.forall_mem_flatMap, forall_instanceRules, forall_bindingRules, List.mem_map]
  rfl

theorem forall_taskRules {types : List String} {t : Task} :
    (∀ k ∈ taskRules r c types t, k.holds) ↔
      ((∃ rest, c.Chain types (t :: rest)) → Catalog.Registered r t) := by
  simp only [taskRules, Catalog.Registered, List.forall_mem_map, List.forall_mem_cons, imp_and]
  simp

theorem forall_rules : (∀ k ∈ q.rules r c, k.holds) ↔ q.Acceptable r c := by
  simp only [rules, referenceRules, List.forall_mem_append, List.forall_mem_flatMap,
    forall_inputRules, forall_resourceRules, forall_instanceRules, forall_taskRules]
  constructor
  · rintro ⟨⟨hinputs, hresources, houtputs⟩, htasks⟩
    exact
      { inputs := hinputs
        resources := fun e he => (hresources e he).1
        params := fun e he d hd => ((hresources e he).2.1 d hd).1
        bindings := fun e he d hd => ((hresources e he).2.1 d hd).2
        dependencies := fun e he => (hresources e he).2.2
        outputs := houtputs
        tasks := htasks }
  · intro h
    refine ⟨⟨h.inputs, fun e he => ⟨h.resources e he, ?_, h.dependencies e he⟩, h.outputs⟩, h.tasks⟩
    exact fun d hd => ⟨h.params e he d hd, h.bindings e he d hd⟩

/-- **The acceptable documents compile, and for any other the first rule that it breaks
    is reported.** -/
theorem compile_accepts (r : Registry) (c : Catalog) (q : Query) :
    ((∃ db, q.compile r c = .ok db) ↔ q.Acceptable r c) ∧
      ∀ e, q.compile r c = .error e ↔ FirstBroken (q.rules r c) e := by
  have hdecides := compile_decides r c q
  refine ⟨?_, fun e => hdecides.eq_error_iff⟩
  rw [hdecides.exists_ok_iff, forall_rules]

end Query

end HornPlan
