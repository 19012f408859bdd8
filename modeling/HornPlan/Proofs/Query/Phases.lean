/-
  HornPlan/Proofs/Query/Phases.lean
  =================================
  **Errors belong to the phase that raised them.**

  All phases share one type of errors, so the signatures do not say which of them a phase
  can end with.  A document that does not compile breaks one of its rules, and every rule
  has an error of its own phase (`compileFault_of_mem_rules`): aliases are checked before
  anything is looked up under them, so none of them is unknown by then.  A search that
  fails is surfaced for the first output that is not proved (`searchFault_of_derive`).
  Making a plan of proofs fails only if there are none, and there is a proof for every
  output (`ofDerivations_ne_error`).

  Specification, section 7 (propagation): each error belongs to one phase.
-/
import HornPlan.Proofs.Plan.Soundness
import HornPlan.Proofs.Query.Acceptance
import HornPlan.Proofs.Query.Gaps

namespace HornPlan

/-! ### The errors of a phase -/

namespace Error

/-- What a document is refused with by the compiler. -/
inductive CompileFault : Error → Prop
  | emptyArguments (type : String) (id : UInt32) : CompileFault (.emptyArguments type id)
  | invalidArguments (type reason : String) : CompileFault (.invalidArguments type reason)
  | unresolvedAlias (type context : String) : CompileFault (.unresolvedAlias type context)
  | reservedInstanceId (context : String) : CompileFault (.reservedInstanceId context)
  | descriptorTypeMismatch (descriptor resource expected found : String) :
    CompileFault (.descriptorTypeMismatch descriptor resource expected found)

/-- What outputs are refused with by a search with a limit. -/
inductive SearchFault (limit : Nat) : Error → Prop
  | outputUnreachable (output atom : String) : SearchFault limit (.outputUnreachable output atom)
  | cyclicDependency (path : List String) : SearchFault limit (.cyclicDependency path)
  | depthLimitExceeded (atom : String) : SearchFault limit (.depthLimitExceeded atom limit)

variable {e : Error} {limit : Nat}

theorem CompileFault.belongs (h : e.CompileFault) :
    e.isCompileError = true ∧ e.isResolutionError = false ∧ ∀ type, e ≠ .unknownAlias type := by
  cases h <;> exact ⟨rfl, rfl, nofun⟩

theorem SearchFault.belongs (h : e.SearchFault limit) :
    e.isResolutionError = true ∧ e.isCompileError = false ∧
      ∀ atom, e ≠ .underivableResource atom := by
  cases h <;> exact ⟨rfl, rfl, nofun⟩

end Error

open Error Rule

/-! ### Compiling -/

/-- What holds of the errors of all rules holds of the one that is reported. -/
theorem Rule.FirstBroken.of_forall_mem {P : Error → Prop} {ks : List Rule} {e : Error}
    (h : FirstBroken ks e) (hks : ∀ k ∈ ks, P k.error) : P e := by
  induction h with
  | here _ => exact hks _ List.mem_cons_self
  | later _ _ ih => exact ih fun k hk => hks k (List.mem_cons_of_mem _ hk)

namespace Query

variable {r : Registry} {c : Catalog} {q : Query}

theorem compileFault_of_mem_instanceRules {context type : String} {id : UInt32} :
    ∀ k ∈ instanceRules r context type id, k.error.CompileFault := by
  rw [instanceRules, List.forall_mem_cons, List.forall_mem_singleton]
  exact ⟨.unresolvedAlias _ _, .reservedInstanceId _⟩

theorem compileFault_of_mem_inputRules {e : Entry InputSpec} :
    ∀ k ∈ inputRules r e, k.error.CompileFault := by
  have hfields : ∀ args, ∀ k ∈ fieldRules r e.type args, k.error.CompileFault := by
    intro args
    unfold fieldRules
    split
    · exact nofun
    · exact List.forall_mem_map.2 fun f _ => .invalidArguments _ _
  rw [inputRules, List.forall_mem_append, List.forall_mem_cons]
  exact ⟨compileFault_of_mem_instanceRules, .emptyArguments _ _, hfields _⟩

theorem compileFault_of_mem_bindingRules {subject : Tuple} {name : String} {types : List String} :
    ∀ k ∈ bindingRules c subject name types, k.error.CompileFault := by
  unfold bindingRules
  split
  · exact nofun
  · rw [List.forall_mem_cons, List.forall_mem_singleton]
    exact ⟨.descriptorTypeMismatch _ _ _ _, .descriptorTypeMismatch _ _ _ _⟩

theorem compileFault_of_mem_resourceRules {e : Entry ResourceSpec} :
    ∀ k ∈ resourceRules r c e, k.error.CompileFault := by
  simp only [resourceRules, descriptorRules, referenceRules, List.forall_mem_append,
    List.forall_mem_flatMap]
  refine ⟨compileFault_of_mem_instanceRules, fun d _ => ⟨fun p _ => ?_, ?_⟩, fun d _ => ?_⟩
  · exact compileFault_of_mem_instanceRules
  · exact compileFault_of_mem_bindingRules
  · exact compileFault_of_mem_instanceRules

/-- **Every rule for a document has an error of the compiler.** -/
theorem compileFault_of_mem_rules : ∀ k ∈ q.rules r c, k.error.CompileFault := by
  simp only [rules, referenceRules, List.forall_mem_append, List.forall_mem_flatMap]
  refine ⟨⟨fun e _ => ?_, fun e _ => ?_, fun e _ => ?_⟩, fun t _ => ?_⟩
  · exact compileFault_of_mem_inputRules
  · exact compileFault_of_mem_resourceRules
  · exact compileFault_of_mem_instanceRules
  · exact List.forall_mem_map.2 fun type _ => .unresolvedAlias _ _

theorem compileFault_of_compile {e : Error} (h : q.compile r c = .error e) : e.CompileFault :=
  ((compile_decides r c q).eq_error_iff.1 h).of_forall_mem compileFault_of_mem_rules

end Query

/-! ### Searching -/

theorem Session.searchFault_of_derive {db : Database} {maxDepth : Nat} {e : Error}
    (h : (Session.start db maxDepth).derive.1 = .error e) : e.SearchFault maxDepth := by
  obtain ⟨o, f, -, rfl, -⟩ := Session.exists_failsFirst (Session.settled_start db maxDepth) h
  cases f with
  | underivable a => exact .outputUnreachable _ _
  | cycle path => exact .cyclicDependency _
  | tooDeep a => exact .depthLimitExceeded _

/-! ### Solving -/

namespace Planner

variable {p : Planner} {q : Query} {db : Database}

theorem derive_of_no_output (h : p.compile q = .ok db) (hnone : q.output = []) :
    p.derive db = .ok [] := by
  have houtputs : db.outputs = [] := by
    rw [(Query.compiled h).outputs, Query.outputTuples, hnone]
    rfl
  rw [derive, Session.derive]
  change (Session.deriveAll db.outputs _).1 = _
  rw [houtputs]
  rfl

/-- A plan is made of the proofs of all outputs, if there are any. -/
theorem ofDerivations_ne_error {ds : List (Tuple × Derivation)} (h : p.compile q = .ok db)
    (hds : p.derive db = .ok ds) (hsome : q.output ≠ []) (e : Error) :
    Plan.ofDerivations db ds ≠ .error e := by
  obtain ⟨-, htuples, -⟩ := Session.derive_genuine hds
  have hne : ds ≠ [] := by
    rintro rfl
    rw [(Query.compiled h).outputs] at htuples
    exact hsome (List.map_eq_nil_iff.1 htuples.symm)
  obtain ⟨plan, hplan⟩ := Plan.exists_ofDerivations db hne
  rw [hplan]
  exact nofun

/-- **A document that compiles is refused for having no outputs, or by the search.** -/
theorem solve_eq_error {e : Error} (h : p.compile q = .ok db) :
    p.solve q = .error e ↔
      q.output = [] ∧ e = .emptyPlan ∨ q.output ≠ [] ∧ p.derive db = .error e := by
  constructor
  · intro hsolve
    obtain ⟨db', hdb', hsolve⟩ := (bind_eq_error.1 hsolve).resolve_left (by rw [h]; exact nofun)
    obtain rfl : db = db' := Except.ok.inj (h.symm.trans hdb')
    rcases bind_eq_error.1 hsolve with hderive | ⟨ds, hds, hplan⟩
    · refine Or.inr ⟨fun hnone => ?_, hderive⟩
      rw [derive_of_no_output h hnone] at hderive
      cases hderive
    · rcases bind_eq_error.1 hplan with hplan | ⟨plan, -, hsolution⟩
      · by_cases hnone : q.output = []
        · rw [derive_of_no_output h hnone] at hds
          cases hds
          cases hplan
          exact Or.inl ⟨hnone, rfl⟩
        · exact absurd hplan (ofDerivations_ne_error h hds hnone e)
      · cases hsolution
  · rintro (⟨hnone, rfl⟩ | ⟨-, hderive⟩)
    · refine bind_eq_error.2 (Or.inr ⟨db, h, bind_eq_error.2 (Or.inr ⟨[], ?_, rfl⟩)⟩)
      exact derive_of_no_output h hnone
    · exact bind_eq_error.2 (Or.inr ⟨db, h, bind_eq_error.2 (Or.inl hderive)⟩)

/-- **Errors belong to the phase that raised them.**  A document that does not compile is
    refused by the compiler, and with no other error when it is to be solved.  One that
    compiles is refused because nothing is wanted, and always then, or else by the search.
    No document that wants something is refused for wanting nothing. -/
theorem errors_by_phase (p : Planner) (q : Query) :
    (∀ e, p.compile q = .error e → p.solve q = .error e ∧ e.CompileFault ∧
        e.isCompileError = true ∧ e.isResolutionError = false ∧ ∀ type, e ≠ .unknownAlias type) ∧
      (∀ db e, p.compile q = .ok db → p.solve q = .error e →
        q.output = [] ∧ e = .emptyPlan ∨
          q.output ≠ [] ∧ e.SearchFault p.maxDepth ∧ e.isResolutionError = true ∧
            e.isCompileError = false ∧ ∀ atom, e ≠ .underivableResource atom) ∧
      (∀ db, p.compile q = .ok db → q.output = [] → p.solve q = .error .emptyPlan) ∧
      (q.output ≠ [] → p.solve q ≠ .error .emptyPlan) := by
  refine ⟨fun e h => ?_, fun db e h hsolve => ?_, fun db h hnone => ?_, fun hsome hsolve => ?_⟩
  · have hfault := Query.compileFault_of_compile h
    exact ⟨bind_eq_error.2 (Or.inl h), hfault, hfault.belongs⟩
  · rcases (solve_eq_error h).1 hsolve with hidle | ⟨hsome, hderive⟩
    · exact Or.inl hidle
    · have hfault := Session.searchFault_of_derive hderive
      exact Or.inr ⟨hsome, hfault, hfault.belongs⟩
  · exact (solve_eq_error h).2 (Or.inl ⟨hnone, rfl⟩)
  · rcases hcompile : p.compile q with e | db
    · obtain rfl : e = .emptyPlan := by
        have hfail : p.solve q = .error e := bind_eq_error.2 (Or.inl hcompile)
        exact Except.error.inj (hfail.symm.trans hsolve)
      cases Query.compileFault_of_compile hcompile
    · rcases (solve_eq_error hcompile).1 hsolve with ⟨hnone, -⟩ | ⟨-, hderive⟩
      · exact hsome hnone
      · cases Session.searchFault_of_derive hderive

end Planner

/-! ### A document for each phase -/

namespace Demo

/-- There are no poems. -/
def poemQuery : Query := Query.empty.withOutput "poem" 1

end Demo

/-- A poem is refused by the compiler, the empty document for wanting nothing, and a
    sentence about nothing by the search. -/
theorem Planner.errors_by_phase_demo : ∃ p, Demo.planner 8 = .ok p ∧
    (∃ e, p.compile Demo.poemQuery = .error e ∧ p.solve Demo.poemQuery = .error e ∧
      e.CompileFault ∧ e.isCompileError = true ∧ e.isResolutionError = false) ∧
    p.solve .empty = .error .emptyPlan ∧
    ∃ e, p.solve Demo.idleQuery = .error e ∧ e.SearchFault p.maxDepth ∧
      e.isResolutionError = true ∧ e.isCompileError = false := by
  have hidle : Demo.refuses Demo.idleQuery "sentence_1" "topic_0" = true := by decide +kernel
  obtain ⟨p, db, hp, hdb, hderive⟩ := Demo.refuses_eq_true hidle
  have hcompile : ((Demo.planner 8).toOption.any fun p =>
      (p.compile Demo.poemQuery).toOption.isNone && (p.compile .empty).toOption.isSome) = true := by
    decide +kernel
  rw [hp] at hcompile
  simp only [Except.toOption, Option.any_some, Bool.and_eq_true] at hcompile
  obtain ⟨hpoem, hempty⟩ := hcompile
  refine ⟨p, hp, ?_, ?_, ?_⟩
  · rcases h : p.compile Demo.poemQuery with e | db
    · obtain ⟨hsolve, hfault, hphase, hother, -⟩ := (p.errors_by_phase Demo.poemQuery).1 e h
      exact ⟨e, rfl, hsolve, hfault, hphase, hother⟩
    · rw [h] at hpoem
      cases hpoem
  · rcases h : p.compile .empty with e | db
    · rw [h] at hempty
      cases hempty
    · exact (p.errors_by_phase .empty).2.2.1 db h rfl
  · have hsome : Demo.idleQuery.output ≠ [] := by decide
    have hsolve := (p.solve_eq_error hdb).2 (Or.inr ⟨hsome, hderive⟩)
    obtain ⟨hnone, -⟩ | ⟨-, hfault, hphase, hother, -⟩ :=
      (p.errors_by_phase Demo.idleQuery).2.1 db _ hdb hsolve
    · exact absurd hnone hsome
    · exact ⟨_, hsolve, hfault, hphase, hother⟩

end HornPlan
