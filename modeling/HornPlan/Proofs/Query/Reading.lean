/-
  HornPlan/Proofs/Query/Reading.lean
  ==================================
  **What a document that compiles has been read as.**

  `Query.compile` reads the three sections of a document one after the other.
  `Reading` names what it finds: the held instances with their values, the declared
  instances with what their declarations contribute, and the wanted instances.
  `compile_eq_ok` says that a document compiles exactly if it has a reading whose
  lineage is registered, and what the database is then.
-/
import HornPlan.Proofs.Results
import HornPlan.Query.Compilation

namespace HornPlan

namespace Query

variable {r : Registry} {c : Catalog} {q : Query}

/-! ### Instances -/

/-- The instance that an alias and an id denote; the id 0 denotes none, and gives the
    wildcard. -/
def instanceOf (type : String) (id : UInt32) : Tuple := ⟨type, InstanceId.ofNumber? id⟩

/-- The instances of the input section, in order. -/
def inputTuples (q : Query) : List Tuple := q.input.map fun e => instanceOf e.type e.spec.id

/-- The instances of the output section, in order. -/
def outputTuples (q : Query) : List Tuple := q.output.map fun e => instanceOf e.type e.spec.id

theorem tuple_eq_ok {context type : String} {id : UInt32} {t : Tuple} :
    tuple r context type id = .ok t ↔
      r.contains type = true ∧ id ≠ 0 ∧ t = instanceOf type id := by
  unfold tuple
  split
  · rename_i hreg
    rw [bind_eq_ok]
    simp only [InstanceId.parse, InstanceId.ofNumber?, instanceOf]
    by_cases hid : id ≠ 0
    · rw [dif_pos hid]
      constructor
      · rintro ⟨i, hi, ht⟩
        cases hi
        cases ht
        exact ⟨hreg, hid, rfl⟩
      · rintro ⟨-, -, rfl⟩
        exact ⟨_, rfl, rfl⟩
    · rw [dif_neg hid]
      constructor
      · rintro ⟨i, hi, -⟩
        cases hi
      · exact fun h => absurd h.2.1 hid
  · rename_i hreg
    constructor
    · exact fun h => nomatch h
    · exact fun h => absurd h.1 hreg

theorem isWildcard_instanceOf {type : String} {id : UInt32} (h : id ≠ 0) :
    (instanceOf type id).isWildcard = false := by
  simp only [instanceOf, InstanceId.ofNumber?, dif_pos h, Tuple.isWildcard, Option.isNone_some]

theorem reference_eq_ok {context : String} {e : Entry Reference} {t : Tuple} :
    reference r context e = .ok t ↔
      r.contains e.type = true ∧ e.spec.id ≠ 0 ∧ t = instanceOf e.type e.spec.id :=
  tuple_eq_ok

/-- An input that is read is an instance with a value of its type. -/
theorem compileInput_eq_ok {e : Entry InputSpec} {t : Tuple} {v : Resource}
    (h : compileInput r e = .ok (t, v)) :
    r.contains e.type = true ∧ e.spec.id ≠ 0 ∧ t = instanceOf e.type e.spec.id ∧
      v.type = t.type := by
  obtain ⟨t', ht, h⟩ := bind_eq_ok.1 h
  obtain ⟨hreg, hid, rfl⟩ := tuple_eq_ok.1 ht
  rcases hargs : e.spec.args with _ | _ | ⟨arg, args⟩
  · rw [hargs] at h
    cases h
  · rw [hargs] at h
    cases h
  · rw [hargs] at h
    obtain ⟨w, hw, h⟩ := bind_eq_ok.1 h
    cases h
    refine ⟨hreg, hid, rfl, ?_⟩
    obtain ⟨type, -, hw⟩ := bind_eq_ok.1 hw
    split at hw
    · cases hw
    · cases hw
      rfl

/-! ### Sections -/

/-- What the sections of a document have been read as. -/
structure Reading (r : Registry) (c : Catalog) (q : Query) where
  inputs : List (Tuple × Resource)
  declared : List (Tuple × Contribution)
  outputs : List Tuple
  inputs_eq : q.input.map (compileInput r) = inputs.map .ok
  declared_eq : q.resources.map (compileResource r c) = declared.map .ok
  outputs_eq : q.output.map (reference r "output") = outputs.map .ok

namespace Reading

/-- The instances that are held. -/
def held (s : Reading r c q) : List Tuple := s.inputs.map Prod.fst

/-- The instances that are referred to without being held or declared. -/
def loose (s : Reading r c q) : List Tuple :=
  ((s.declared.flatMap fun d => d.2.references) ++ s.outputs).filter
    (· ∉ s.held ++ s.declared.map Prod.fst)

/-- What the document demands of the catalog. -/
def demand (s : Reading r c q) : Demand where
  clauses := (s.inputs.flatMap fun i => [Clause.inputFact i.1, Clause.generalization i.1])
    ++ (s.declared.flatMap fun d => d.2.clauses)
    ++ s.loose.map Clause.assignment
  inputs := s.inputs
  outputs := s.outputs
  roots := (s.declared.flatMap fun d => d.2.roots) ++ s.loose.map Tuple.type

/-- The tasks that may have to be run. -/
def tasks (s : Reading r c q) : List Task := c.lineage s.demand.roots

def database (s : Reading r c q) : Database := s.demand.database s.tasks

end Reading

theorem demand_eq_ok {d : Demand} :
    q.demand r c = .ok d ↔ ∃ s : Reading r c q, d = s.demand := by
  unfold Query.demand
  constructor
  · intro h
    obtain ⟨inputs, hinputs, h⟩ := bind_eq_ok.1 h
    obtain ⟨declared, hdeclared, h⟩ := bind_eq_ok.1 h
    obtain ⟨outputs, houtputs, h⟩ := bind_eq_ok.1 h
    cases h
    exact ⟨⟨inputs, declared, outputs, mapM_eq_ok.1 hinputs, mapM_eq_ok.1 hdeclared,
      mapM_eq_ok.1 houtputs⟩, rfl⟩
  · rintro ⟨s, rfl⟩
    refine bind_eq_ok.2 ⟨s.inputs, mapM_eq_ok.2 s.inputs_eq, ?_⟩
    refine bind_eq_ok.2 ⟨s.declared, mapM_eq_ok.2 s.declared_eq, ?_⟩
    exact bind_eq_ok.2 ⟨s.outputs, mapM_eq_ok.2 s.outputs_eq, rfl⟩

theorem checkedLineage_eq_ok {types : List String} {ts : List Task} :
    c.checkedLineage r types = .ok ts ↔
      (∀ t ∈ c.lineage types, r.checkTask t = .ok ()) ∧ ts = c.lineage types := by
  unfold Catalog.checkedLineage
  rw [bind_eq_ok]
  constructor
  · rintro ⟨_, htasks, h⟩
    cases h
    exact ⟨forM_eq_ok.1 htasks, rfl⟩
  · rintro ⟨htasks, rfl⟩
    exact ⟨(), forM_eq_ok.2 htasks, rfl⟩

/-- **A document compiles exactly if it has a reading with a registered lineage.** -/
theorem compile_eq_ok {db : Database} :
    q.compile r c = .ok db ↔
      ∃ s : Reading r c q, (∀ t ∈ s.tasks, r.checkTask t = .ok ()) ∧ db = s.database := by
  unfold compile
  rw [bind_eq_ok]
  constructor
  · rintro ⟨d, hd, h⟩
    obtain ⟨s, rfl⟩ := demand_eq_ok.1 hd
    obtain ⟨ts, hts, h⟩ := bind_eq_ok.1 h
    obtain ⟨htasks, rfl⟩ := checkedLineage_eq_ok.1 hts
    cases h
    exact ⟨s, htasks, rfl⟩
  · rintro ⟨s, htasks, rfl⟩
    refine ⟨s.demand, demand_eq_ok.2 ⟨s, rfl⟩, ?_⟩
    exact bind_eq_ok.2 ⟨s.tasks, checkedLineage_eq_ok.2 ⟨htasks, rfl⟩, rfl⟩

/-- A task passes the check when both of its types are registered. -/
theorem checkTask_eq_ok {t : Task} :
    r.checkTask t = .ok () ↔ r.contains t.input = true ∧ r.contains t.output = true := by
  unfold Registry.checkTask
  by_cases hin : r.contains t.input = true <;> by_cases hout : r.contains t.output = true <;>
    simp [List.find?, hin, hout]

end Query

end HornPlan
