/-
  HornPlan/Proofs/Query/Closed.lean
  =================================
  **The clauses of a document leave few atoms without a clause.**

  Whatever a document refers to is held, declared, or only referred to, and in each case
  some clause says when it is there (`Reading.isHead_of_reference`).  So the atoms of
  bodies are heads of clauses again (`Reading.closed`), but for two kinds of them.  Any
  instance of a type is a head if something makes or holds one, and a property if the
  catalog has its descriptor (`Reading.isHead_of_property`).
-/
import HornPlan.Proofs.Query.Entanglement

namespace HornPlan

/-- Does some clause say when the atom holds? -/
def Database.IsHead (db : Database) (a : Atom) : Prop := ∃ cl ∈ db.clauses, cl.head = a

/-- An atom without a fact and without a rule has no clause. -/
theorem Database.not_isHead {db : Database} {a : Atom} (hfact : db.fact? a = none)
    (hrules : db.rulesFor a = []) : ¬ db.IsHead a := by
  rintro ⟨cl, hcl, hhead⟩
  by_cases hkind : cl.kind = .inputFact
  · exact Database.fact?_ne_none hcl ⟨hkind, hhead⟩ hfact
  · obtain ⟨i, hi⟩ := List.mem_iff_getElem?.1 hcl
    have hrule := Database.mem_rulesFor.2 ⟨hi, hkind, hhead⟩
    simp [hrules] at hrule

namespace Query

variable {r : Registry} {c : Catalog} {q : Query}

theorem exists_head_of_completionClauses (t : Tuple) (properties dependencies : List Atom) :
    ∃ cl ∈ completionClauses t properties dependencies, cl.head = .resource t := by
  unfold completionClauses
  split
  · exact ⟨_, List.mem_cons_self, rfl⟩
  · exact ⟨_, List.mem_cons_of_mem _ List.mem_cons_self, rfl⟩

namespace Reading

variable (s : Reading r c q)

/-! ### What is a head -/

theorem isHead_of_demand {cl : Clause} (hcl : cl ∈ s.demand.clauses) :
    s.database.IsHead cl.head := by
  obtain ⟨d, hd, hkey⟩ := s.exists_key (Or.inl hcl)
  exact ⟨d, hd, congrArg Prod.fst hkey⟩

theorem isHead_of_task {t : Task} (ht : t ∈ s.tasks) : s.database.IsHead (.any t.output) := by
  obtain ⟨d, hd, hkey⟩ := s.exists_key (Or.inr ⟨t, ht, rfl⟩)
  exact ⟨d, hd, congrArg Prod.fst hkey⟩

theorem isHead_of_input {i : Tuple × Resource} (hi : i ∈ s.inputs) :
    s.database.IsHead (.resource i.1) ∧ s.database.IsHead (.any i.1.type) := by
  have hmem : ∀ cl ∈ [Clause.inputFact i.1, .generalization i.1], cl ∈ s.demand.clauses := by
    intro cl hcl
    exact List.mem_append_left _ (List.mem_append_left _ (List.mem_flatMap.2 ⟨i, hi, hcl⟩))
  exact ⟨s.isHead_of_demand (hmem _ List.mem_cons_self),
    s.isHead_of_demand (hmem _ (List.mem_cons_of_mem _ List.mem_cons_self))⟩

theorem isHead_of_contribution {d : Tuple × Contribution} (hd : d ∈ s.declared) {cl : Clause}
    (hcl : cl ∈ d.2.clauses) : s.database.IsHead cl.head :=
  s.isHead_of_demand
    (List.mem_append_left _ (List.mem_append_right _ (List.mem_flatMap.2 ⟨d, hd, hcl⟩)))

theorem isHead_of_declared {d : Tuple × Contribution} (hd : d ∈ s.declared) :
    s.database.IsHead (.resource d.1) := by
  obtain ⟨t, k⟩ := d
  obtain ⟨e, -, hread⟩ := exists_of_map_eq s.declared_eq hd
  obtain ⟨rfl, -, bound, -, -, hclauses, -⟩ := compileResource_eq_ok hread
  obtain ⟨cl, hcl, hhead⟩ := exists_head_of_completionClauses e.subject e.properties
    (e.dependencies.map .resource)
  rw [← hhead]
  refine s.isHead_of_contribution hd ?_
  rw [hclauses]
  exact List.mem_append_right _ hcl

/-- **What is referred to is a head.** -/
theorem isHead_of_reference {t : Tuple}
    (ht : t ∈ (s.declared.flatMap fun d => d.2.references) ++ s.outputs) :
    s.database.IsHead (.resource t) := by
  by_cases hknown : t ∈ s.held ++ s.declared.map Prod.fst
  · rcases List.mem_append.1 hknown with hheld | hdeclared
    · obtain ⟨i, hi, rfl⟩ := List.mem_map.1 hheld
      exact (s.isHead_of_input hi).1
    · obtain ⟨d, hd, rfl⟩ := List.mem_map.1 hdeclared
      exact s.isHead_of_declared hd
  · have hloose : t ∈ s.loose := List.mem_filter.2 ⟨ht, decide_eq_true hknown⟩
    exact s.isHead_of_demand (List.mem_append_right _ (List.mem_map_of_mem hloose))

/-- A property is a head if the catalog has the descriptor. -/
theorem isHead_of_property {e : Entry ResourceSpec} (he : e ∈ q.resources) {name : String}
    (hname : name ∈ e.spec.descriptors.map Prod.fst) (hsome : c.descriptor? name ≠ none) :
    s.database.IsHead (.property name e.subject) := by
  obtain ⟨⟨t, k⟩, hd, hread⟩ := exists_result_of_map_eq s.declared_eq he
  obtain ⟨rfl, -, bound, hbound, -, hclauses, -⟩ := compileResource_eq_ok hread
  obtain ⟨descriptor, hdescriptor, rfl⟩ := List.mem_map.1 hname
  obtain ⟨b, hb, hb'⟩ := exists_result_of_map_eq hbound hdescriptor
  obtain ⟨-, hbind⟩ := compileDescriptor_eq_ok hb'
  obtain ⟨d, hdesc⟩ := Option.ne_none_iff_exists'.1 hsome
  -- a descriptor that the catalog has is bound, or the document does not compile
  obtain ⟨cl, hcl, hhead⟩ : ∃ cl ∈ b.clauses, cl.head = .property descriptor.1 e.subject := by
    unfold bindDescriptor at hbind
    rw [hdesc] at hbind
    dsimp only at hbind
    split at hbind
    · split at hbind
      · injection hbind with hbind
        rw [← hbind]
        exact ⟨_, List.mem_cons_self, rfl⟩
      · cases hbind
    · cases hbind
  rw [← hhead]
  refine s.isHead_of_contribution hd ?_
  rw [hclauses]
  exact List.mem_append_left _ (List.mem_flatMap.2 ⟨b, hb, hcl⟩)

/-! ### What bodies ask for -/

/-- The body of a clause that an entry of the resources section contributes. -/
theorem isHead_of_body_of_declared {d : Tuple × Contribution} (hd : d ∈ s.declared) {cl : Clause}
    (hcl : cl ∈ d.2.clauses) {b : Atom} (hb : b ∈ cl.body) :
    s.database.IsHead b ∨ (∃ x, b = .any x) ∨ ∃ e ∈ q.resources, b ∈ e.properties := by
  obtain ⟨t, k⟩ := d
  obtain ⟨e, he, hread⟩ := exists_of_map_eq s.declared_eq hd
  obtain ⟨rfl, -, bound, hbound, -, hclauses, hrefs, -⟩ := compileResource_eq_ok hread
  have hreference : ∀ u ∈ bound.flatMap Contribution.references ++ e.dependencies,
      s.database.IsHead (.resource u) := by
    intro u hu
    refine s.isHead_of_reference (List.mem_append_left _ (List.mem_flatMap.2 ⟨_, hd, ?_⟩))
    rw [hrefs]
    exact hu
  have hcontributed := hcl
  rw [hclauses] at hcl
  rcases List.mem_append.1 hcl with hcl | hcl
  · obtain ⟨k', hk, hcl⟩ := List.mem_flatMap.1 hcl
    obtain ⟨descriptor, -, hk'⟩ := exists_of_map_eq hbound hk
    obtain ⟨_, input, extra, -, -, -, hperm, rfl⟩ :=
      mem_bindDescriptor (compileDescriptor_eq_ok hk').2 hcl
    obtain ⟨u, hu, rfl⟩ : ∃ u ∈ input :: extra, b = .resource u := by
      rcases List.mem_cons.1 hb with rfl | hb
      · exact ⟨input, List.mem_cons_self, rfl⟩
      · obtain ⟨u, hu, rfl⟩ := List.mem_map.1 hb
        exact ⟨u, List.mem_cons_of_mem _ hu, rfl⟩
    exact Or.inl (hreference u (List.mem_append_left _
      (List.mem_flatMap.2 ⟨k', hk, hperm.mem_iff.2 hu⟩)))
  · unfold completionClauses at hcl
    split at hcl
    · rw [List.mem_singleton.1 hcl] at hb
      exact Or.inr (Or.inl ⟨_, List.mem_singleton.1 hb⟩)
    · rename_i hsome
      rcases List.mem_cons.1 hcl with rfl | hcl
      · rcases List.mem_append.1 hb with hb | hb
        · exact Or.inr (Or.inr ⟨e, he, hb⟩)
        · obtain ⟨u, hu, rfl⟩ := List.mem_map.1 hb
          exact Or.inl (hreference u (List.mem_append_right _ hu))
      · rw [List.mem_singleton.1 hcl] at hb
        rcases List.mem_append.1 hb with hb | hb
        · split at hb
          · exact Or.inr (Or.inl ⟨_, List.mem_singleton.1 hb⟩)
          · cases hb
        · -- the aggregate comes with the completion
          rw [List.mem_singleton.1 hb]
          have haggregate : Clause.allDependencies e.subject
              (e.properties ++ e.dependencies.map .resource) ∈ k.clauses := by
            rw [hclauses, completionClauses, if_neg hsome]
            exact List.mem_append_right _ List.mem_cons_self
          exact Or.inl (s.isHead_of_contribution hd haggregate)

/-- **What bodies ask for is a head**, unless it is any instance or a property. -/
theorem closed {cl : Clause} (hcl : cl ∈ s.database.clauses) {b : Atom} (hb : b ∈ cl.body) :
    s.database.IsHead b ∨ (∃ x, b = .any x) ∨ ∃ e ∈ q.resources, b ∈ e.properties := by
  rcases s.mem_clauses hcl with ⟨i, hi, rfl | rfl⟩ | ⟨d, hd, hcl⟩ | ⟨t, -, rfl⟩ | ⟨t, -, rfl⟩
  · cases hb
  · rw [List.mem_singleton.1 hb]
    exact Or.inl (s.isHead_of_input hi).1
  · exact s.isHead_of_body_of_declared hd hcl hb
  · exact Or.inr (Or.inl ⟨_, List.mem_singleton.1 hb⟩)
  · exact Or.inr (Or.inl ⟨_, List.mem_singleton.1 hb⟩)

end Reading

end Query

end HornPlan
