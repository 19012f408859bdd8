/-
  HornPlan/Proofs/Query/WellFormed.lean
  =====================================
  **Compiled databases are well formed, well typed and closed.**

  Most of it is read off the shapes of the clauses (`Shape`), one clause at a time: the
  types that it mentions are registered, a wildcard stands only where any instance is
  meant, and its step goes from its first body atom to its head.

  Two things are not local.  That a completion which asks for a made instance belongs to
  an entry with dependencies and without descriptors has to be traced to the section it
  comes from (`Reading.entry_of_completion`).  And that what bodies refer to has a clause
  depends on the whole document, since an entry may refer to what is held or declared
  anywhere in it; this is `Reading.closed`.

  Specification, sections 3 and 4.3: the clauses that `compile` emits.
-/
import HornPlan.Proofs.Query.Closed
import HornPlan.Proofs.Query.Requirements

namespace HornPlan

variable {r : Registry} {c : Catalog} {q : Query} {db : Database}

theorem Registry.instantiate_eq_ok {key : String} {args : Fields} {v : Resource}
    (h : r.instantiate key args = .ok v) : ∃ type, r.type? key = some type ∧
      (∀ f ∈ type.fields, args.contains f = true) ∧ v = ⟨key, args⟩ := by
  obtain ⟨type, htype, h⟩ := bind_eq_ok.1 h
  unfold Registry.resolve at htype
  split at htype
  · rename_i hknown
    cases htype
    split at h
    · cases h
    · rename_i hfind
      cases h
      exact ⟨type, hknown, by simpa using hfind, rfl⟩
  · cases htype

namespace Query

/-! ### One clause at a time -/

namespace Shape

variable {cl : Clause}

/-- The types that a clause mentions are registered. -/
theorem registered (h : Shape r c q cl) :
    ∀ a ∈ cl.head :: cl.body, r.contains a.subject.type = true := by
  cases h with
  | inputFact _ hname => simp [Clause.inputFact, Atom.subject, hname.1]
  | generalization _ hname =>
    simp [Clause.generalization, Atom.subject, Tuple.generalize, Tuple.wildcard, hname.1]
  | assignment hname =>
    simp [Clause.assignment, Atom.subject, Tuple.generalize, Tuple.wildcard, hname.1]
  | task _ hcheck =>
    obtain ⟨hin, hout⟩ := checkTask_eq_ok.1 hcheck
    simp [Clause.ofTask, Step.generic, Atom.subject, Tuple.wildcard, hin, hout]
  | @completion e _ hname =>
    cases e.properties.isEmpty <;>
      simp [Clause.completion, Atom.subject, Tuple.generalize, Tuple.wildcard, hname.1]
  | @allDependencies e deps _ hname hdeps _ =>
    simp only [Clause.allDependencies, List.forall_mem_cons, List.forall_mem_append,
      List.forall_mem_map, Entry.properties, Atom.subject]
    exact ⟨hname.1, fun _ _ => hname.1, fun t ht => (hdeps t ht).1⟩
  | @descriptor e name d input extra _ hname _ _ _ _ hinput hextra =>
    simp only [Clause.dependentDescriptor, Step.ofDescriptor, List.forall_mem_cons,
      List.forall_mem_map, Atom.subject]
    exact ⟨hname.1, hinput.1, fun t ht => (hextra t ht).1⟩

/-- Any instance is the head of tasks and generalizations only. -/
theorem kind_of_wildcard_head (h : Shape r c q cl) (hwild : cl.head.subject.isWildcard = true) :
    cl.kind = .task ∨ cl.kind = .generalization := by
  cases h with
  | task _ _ => exact Or.inl rfl
  | generalization _ _ => exact Or.inr rfl
  | inputFact _ hname => exact absurd hwild (by simp [Clause.inputFact, Atom.subject, hname.2])
  | assignment hname => exact absurd hwild (by simp [Clause.assignment, Atom.subject, hname.2])
  | completion _ hname => exact absurd hwild (by simp [Clause.completion, Atom.subject, hname.2])
  | allDependencies _ hname _ _ =>
    exact absurd hwild (by simp [Clause.allDependencies, Atom.subject, hname.2])
  | descriptor _ hname _ _ _ _ _ _ =>
    exact absurd hwild
      (by simp [Clause.dependentDescriptor, Step.ofDescriptor, Atom.subject, hname.2])

/-- Any instance is asked for by tasks and assignments, and first of all by completions
    of instances without properties. -/
theorem kind_of_wildcard_body (h : Shape r c q cl) {i : Nat} {a : Atom} (ha : cl.body[i]? = some a)
    (hwild : a.subject.isWildcard = true) :
    cl.kind = .task ∨ cl.kind = .assignment ∨
      cl.kind = .completion ∧ i = 0 ∧ ∃ t, cl = .completion t true := by
  have hmem := List.mem_of_getElem? ha
  cases h with
  | task _ _ => exact Or.inl rfl
  | assignment _ => exact Or.inr (Or.inl rfl)
  | inputFact _ _ => cases hmem
  | generalization _ hname =>
    rw [List.mem_singleton.1 hmem] at hwild
    exact absurd hwild (by simp [Atom.subject, hname.2])
  | @completion e _ hname =>
    refine Or.inr (Or.inr ⟨rfl, ?_⟩)
    cases hprops : e.properties.isEmpty with
    | false =>
      rw [Clause.completion, hprops] at hmem
      rw [List.mem_singleton.1 hmem] at hwild
      exact absurd hwild (by simp [Atom.subject, hname.2])
    | true =>
      -- the instance to be made comes first, and the aggregate second
      rw [Clause.completion, hprops] at ha
      rcases i with _ | _ | i
      · exact ⟨rfl, e.subject, rfl⟩
      · cases ha
        exact absurd hwild (by simp [Atom.subject, hname.2])
      · cases ha
  | @allDependencies e deps _ hname hdeps _ =>
    rcases List.mem_append.1 hmem with hprop | hdep
    · obtain ⟨_, -, rfl⟩ := List.mem_map.1 hprop
      exact absurd hwild (by simp [Atom.subject, hname.2])
    · obtain ⟨t, ht, rfl⟩ := List.mem_map.1 hdep
      exact absurd hwild (by simp [Atom.subject, (hdeps t ht).2])
  | @descriptor e name d input extra _ _ _ _ _ _ hinput hextra =>
    rcases List.mem_cons.1 hmem with rfl | hmem
    · exact absurd hwild (by simp [Step.ofDescriptor, Atom.subject, hinput.2])
    · obtain ⟨t, ht, rfl⟩ := List.mem_map.1 hmem
      exact absurd hwild (by simp [Atom.subject, (hextra t ht).2])

/-- A step goes from the first body atom to what the head is about, with tuples of the
    types of its task. -/
theorem step_typed (h : Shape r c q cl) {s : Step} (hs : cl.step = some s) :
    s.task.input = s.input.type ∧ s.task.output = s.output.type ∧
      cl.body.head? = some (.resource s.input) ∧ cl.head.subject = s.output := by
  refine and_assoc.1 ⟨?_, (h.formed.readsFirst hs).2, ?_⟩
  · cases h with
    | task _ _ =>
      cases hs
      exact ⟨rfl, rfl⟩
    | descriptor _ _ _ _ hin hout _ _ =>
      cases hs
      exact ⟨hin.symm, hout⟩
    | _ => cases hs
  · cases h <;> cases hs <;> rfl

end Shape

/-! ### Completions -/

/-- A completion belongs to an entry that asks for something. -/
theorem entry_of_compileResource {e : Entry ResourceSpec} {u : Tuple} {k : Contribution}
    (h : compileResource r c e = .ok (u, k)) {cl : Clause} (hcl : cl ∈ k.clauses)
    (hkind : cl.kind = .completion) :
    cl = .completion e.subject e.properties.isEmpty ∧ e.requirements ≠ [] := by
  obtain ⟨-, -, bound, hbound, -, hclauses, -⟩ := compileResource_eq_ok h
  rw [hclauses] at hcl
  rcases List.mem_append.1 hcl with hcl | hcl
  · obtain ⟨b, hb, hcl⟩ := List.mem_flatMap.1 hcl
    obtain ⟨descriptor, -, hb⟩ := exists_of_map_eq hbound hb
    obtain ⟨_, _, _, -, -, -, -, rfl⟩ := mem_bindDescriptor (compileDescriptor_eq_ok hb).2 hcl
    cases hkind
  · unfold completionClauses at hcl
    split at hcl
    · rw [List.mem_singleton.1 hcl] at hkind
      cases hkind
    · rename_i hsome
      refine ⟨?_, fun hnil => hsome ?_⟩
      · simp only [List.mem_cons, List.not_mem_nil, or_false] at hcl
        rcases hcl with rfl | rfl
        · cases hkind
        · rfl
      · obtain ⟨hprops, hdeps⟩ := List.append_eq_nil_iff.1 hnil
        rw [hprops, hdeps]
        exact ⟨rfl, rfl⟩

theorem Reading.entry_of_completion (s : Reading r c q) {cl : Clause}
    (hcl : cl ∈ s.database.clauses) (hkind : cl.kind = .completion) :
    ∃ e ∈ q.resources, cl = .completion e.subject e.properties.isEmpty ∧ e.requirements ≠ [] := by
  rcases s.mem_clauses hcl with ⟨i, -, rfl | rfl⟩ | ⟨d, hd, hcl⟩ | ⟨t, -, rfl⟩ | ⟨t, -, rfl⟩
  · cases hkind
  · cases hkind
  · obtain ⟨e, he, hread⟩ := exists_of_map_eq s.declared_eq hd
    exact ⟨e, he, entry_of_compileResource hread hcl hkind⟩
  · cases hkind
  · cases hkind

/-- A completion that asks for a made instance is that of an entry with dependencies and
    without descriptors. -/
theorem Reading.entry_of_producer (s : Reading r c q) {t : Tuple}
    (hcl : Clause.completion t true ∈ s.database.clauses) :
    ∃ e ∈ q.resources, e.subject = t ∧ e.spec.descriptors = [] ∧ e.spec.dependencies ≠ [] := by
  obtain ⟨e, he, heq, hsome⟩ := s.entry_of_completion hcl rfl
  have hsubject : t = e.subject := Atom.resource.inj (congrArg Clause.head heq)
  have hprops : e.properties = [] := by
    have hbody := congrArg (fun cl => cl.body.length) heq
    cases hprops : e.properties with
    | nil => rfl
    | cons _ _ => simp [Clause.completion, hprops] at hbody
  refine ⟨e, he, hsubject.symm, List.map_eq_nil_iff.1 hprops, fun hdeps => hsome ?_⟩
  rw [Entry.requirements, hprops, Entry.dependencies, hdeps]
  rfl

/-! ### Inputs -/

/-- The value of an input has the fields that its type declares. -/
theorem declares_of_compileInput {e : Entry InputSpec} {t : Tuple} {v : Resource}
    (h : compileInput r e = .ok (t, v)) :
    ∃ type, r.type? t.type = some type ∧ ∀ f ∈ type.fields, v.fields.contains f = true := by
  obtain ⟨-, -, rfl, -⟩ := compileInput_eq_ok h
  obtain ⟨_, -, h⟩ := bind_eq_ok.1 h
  rcases hargs : e.spec.args with _ | _ | ⟨arg, args⟩
  · rw [hargs] at h
    cases h
  · rw [hargs] at h
    cases h
  · rw [hargs] at h
    obtain ⟨w, hw, h⟩ := bind_eq_ok.1 h
    obtain ⟨type, htype, hfields, rfl⟩ := Registry.instantiate_eq_ok hw
    cases h
    exact ⟨type, htype, hfields⟩

end Query

/-! ### Whole databases -/

/-- A database that is well formed, well typed and closed, for a document and the types
    that are registered. -/
structure Database.WellFormed (r : Registry) (q : Query) (db : Database) : Prop where
  distinct : db.Distinct
  /-- The facts state the inputs and nothing else. -/
  facts : ∀ a, (∃ cl ∈ db.clauses, cl.kind = .inputFact ∧ cl.head = a) ↔
    ∃ t ∈ q.inputTuples, a = .resource t
  inputs : db.inputs.map Prod.fst = q.inputTuples
  values : ∀ i ∈ db.inputs, i.2.type = i.1.type ∧
    ∃ type, r.type? i.1.type = some type ∧ ∀ f ∈ type.fields, i.2.fields.contains f = true
  registered : ∀ cl ∈ db.clauses, ∀ a ∈ cl.head :: cl.body, r.contains a.subject.type = true
  outputs : ∀ o ∈ db.outputs, r.contains o.type = true ∧ o.isWildcard = false
  wildcardHead : ∀ cl ∈ db.clauses, cl.head.subject.isWildcard = true →
    cl.kind = .task ∨ cl.kind = .generalization
  /-- Any instance is asked for by tasks, by assignments, and first of all by completions
      of what has dependencies and no descriptors. -/
  wildcardBody : ∀ cl ∈ db.clauses, ∀ i a, cl.body[i]? = some a → a.subject.isWildcard = true →
    cl.kind = .task ∨ cl.kind = .assignment ∨
      cl.kind = .completion ∧ i = 0 ∧ ∃ e ∈ q.resources, cl.head = .resource e.subject ∧
        e.spec.descriptors = [] ∧ e.spec.dependencies ≠ []
  steps : ∀ cl ∈ db.clauses, ∀ s, cl.step = some s →
    s.task.input = s.input.type ∧ s.task.output = s.output.type ∧
      cl.body.head? = some (.resource s.input) ∧ cl.head.subject = s.output
  closed : ∀ cl ∈ db.clauses, ∀ b ∈ cl.body, ∀ t,
    b = .resource t ∧ t.isWildcard = false ∨ b = .allDependencies t → db.IsHead b
  wanted : ∀ o ∈ db.outputs, db.IsHead (.resource o)

namespace Query

/-- **What a document compiles to is well formed, well typed and closed.** -/
theorem compile_wellFormed (h : q.compile r c = .ok db) : db.WellFormed r q := by
  have hcomp := compiled h
  obtain ⟨s, htasks, rfl⟩ := compile_eq_ok.1 h
  refine
    { distinct := Database.distinct_pushAll_empty _
      facts := ?_
      inputs := hcomp.inputs
      values := ?_
      registered := fun cl hcl => (hcomp.shape cl hcl).registered
      outputs := ?_
      wildcardHead := fun cl hcl => (hcomp.shape cl hcl).kind_of_wildcard_head
      wildcardBody := ?_
      steps := fun cl hcl _ => (hcomp.shape cl hcl).step_typed
      closed := ?_
      wanted := fun o ho => s.isHead_of_reference (List.mem_append_right _ ho) }
  · intro a
    constructor
    · rintro ⟨cl, hcl, hkind, rfl⟩
      cases hcomp.shape cl hcl with
      | inputFact ht _ => exact ⟨_, ht, rfl⟩
      | _ => cases hkind
    · rintro ⟨t, ht, rfl⟩
      exact ⟨.inputFact t, hcomp.fact t ht, rfl, rfl⟩
  · intro i hi
    obtain ⟨e, -, hread⟩ := exists_of_map_eq s.inputs_eq hi
    exact ⟨hcomp.typed i hi, declares_of_compileInput hread⟩
  · intro o ho
    exact hcomp.wanted o (hcomp.outputs ▸ ho)
  · intro cl hcl i a ha hwild
    rcases (hcomp.shape cl hcl).kind_of_wildcard_body ha hwild with htask | hassign |
      ⟨hkind, hfirst, t, rfl⟩
    · exact Or.inl htask
    · exact Or.inr (Or.inl hassign)
    · obtain ⟨e, he, rfl, honly⟩ := s.entry_of_producer hcl
      exact Or.inr (Or.inr ⟨hkind, hfirst, e, he, rfl, honly⟩)
  · rintro cl hcl b hb t hconcrete
    rcases s.closed hcl hb with hhead | ⟨x, rfl⟩ | ⟨e, -, hprop⟩
    · exact hhead
    · -- a wildcard is no instance
      rcases hconcrete with ⟨heq, hwild⟩ | heq <;> cases heq
      cases hwild
    · obtain ⟨d, -, rfl⟩ := List.mem_map.1 hprop
      rcases hconcrete with ⟨heq, -⟩ | heq <;> cases heq

end Query

/-! ### A document with references in all directions -/

namespace Demo

/-- A recipe that depends on a paragraph which is declared after it, and which depends
    on a sentence that is not; the topic of the recipe is held and declared. -/
def bookletQuery : Query :=
  (((Query.empty.withInput "topic" 1 [("topic", .text "leek")]).withResource "recipe"
      (((ResourceSpec.ofId 2).describe "title" [("of", "topic", 1)]).dependsOn "paragraph" 5))
    |>.withResource "paragraph" ((ResourceSpec.ofId 5).dependsOn "sentence" 3))
    |>.withResource "topic" (ResourceSpec.ofId 1)
    |>.withOutput "recipe" 2
    |>.withOutput "image" 4

theorem compile_wellFormed_booklet : ∃ p db, planner 8 = .ok p ∧
    bookletQuery.compile p.registry p.catalog = .ok db ∧ db.size = 14 ∧
      db.WellFormed p.registry bookletQuery := by
  have hall : ((planner 8).toOption.any fun p =>
      (bookletQuery.compile p.registry p.catalog).toOption.any fun db => db.size = 14) = true := by
    decide +kernel
  obtain ⟨p, hp, hall⟩ := any_toOption_iff.1 hall
  obtain ⟨db, hdb, hall⟩ := any_toOption_iff.1 hall
  exact ⟨p, db, hp, hdb, of_decide_eq_true hall, Query.compile_wellFormed hdb⟩

end Demo

end HornPlan
