/-
  HornPlan/Proofs/Query/Gaps.lean
  ===============================
  **An output that is out of reach is reported with a gap of the document.**

  A search that fails blames an atom at the end of a chain of rules.  Over the clauses
  of a document there are three kinds of such atoms (`Gap`): any instance of a type that
  no task makes and no input holds; a property whose descriptor is not in the catalog;
  and an instance that has to be made although another one is held.

  Nothing else can be blamed.  What a document refers to is a head, so it has a rule
  (`Reading.closed`); and any instance that a rule asks for is of a type on the lineage,
  so no task that makes one has been left out (`Reading.mem_lineageTypes_of_body`).

  Specification, section 8 (derivability completeness): what `OutputUnreachable` comes
  from.
-/
import HornPlan.Proofs.Query.Acyclic
import HornPlan.Proofs.Query.Closed
import HornPlan.Proofs.Query.Pruning
import HornPlan.Proofs.Query.Requirements
import HornPlan.Proofs.Search.Blame

namespace HornPlan

open HornPlan.Derivation Relation

/-! ### The end of a chain of rules -/

/-- Is the atom without a clause, or is another instance held where a rule for it asks
    for one that is made? -/
def Database.Lacks (db : Database) (a : Atom) : Prop :=
  db.fact? a = none ∧ (db.rulesFor a = [] ∨
    ∃ cl ∈ db.clauses, cl.head = a ∧ (cl.kind = .assignment ∨ cl.kind = .completion) ∧
      ∃ g ∈ db.clauses, g.kind = .generalization ∧ cl.body.head? = some g.head)

/-- The atom that is blamed is at the end of a chain of rules, and lacking. -/
theorem Derivation.Blames.lacks {db : Database} {path : List Atom} {goal : Atom} {f : Failure}
    (h : Blames db path goal f) :
    ∀ {a}, f = .underivable a → ReflTransGen db.LeadsTo goal a ∧ db.Lacks a := by
  induction h with
  | cycle _ _ => exact fun h => nomatch h
  | tooDeep => exact fun h => nomatch h
  | unknown hfact hrules =>
    rintro a ⟨⟩
    exact ⟨.refl, hfact, Or.inl hrules⟩
  | held hfact hc hhead hkind hg hgen hfirst =>
    rintro a ⟨⟩
    exact ⟨.refl, hfact, Or.inr ⟨_, hc, hhead, hkind, _, hg, hgen, hfirst⟩⟩
  | rule _ _ hc _ hhead hb _ ih =>
    intro a ha
    obtain ⟨hreach, hlacks⟩ := ih ha
    exact ⟨hreach.head ⟨_, hc, hhead, hb⟩, hlacks⟩

/-- What an atom leads to is asked for by a clause, unless it is the atom itself. -/
theorem Database.eq_or_mem_body {db : Database} {goal a : Atom}
    (h : ReflTransGen db.LeadsTo goal a) : a = goal ∨ ∃ cl ∈ db.clauses, a ∈ cl.body := by
  rcases h.cases_tail with heq | ⟨b, -, cl, hcl, -, ha⟩
  · exact Or.inl heq
  · exact Or.inr ⟨cl, hcl, ha⟩

namespace Query

variable {r : Registry} {c : Catalog} {q : Query} {db : Database}

/-! ### Gaps of a document -/

/-- What a document and the catalog leave open. -/
inductive Gap (c : Catalog) (q : Query) (db : Database) : Atom → Prop
  /-- No task makes an instance of the type, and no input is one. -/
  | unmade {x : String} (hmade : ∀ t ∈ c.tasks, t.output ≠ x)
    (hheld : ∀ i ∈ q.inputTuples, i.type ≠ x) : Gap c q db (.any x)
  /-- The document declares a property of an instance that the catalog does not know. -/
  | undescribed {e : Entry ResourceSpec} {name : String} (he : e ∈ q.resources)
    (hconcrete : e.subject.isWildcard = false) (hname : name ∈ e.spec.descriptors.map Prod.fst)
    (hnone : c.descriptor? name = none) : Gap c q db (.property name e.subject)
  /-- The instance has to be made, and another one is held. -/
  | bridged {t : Tuple} (hconcrete : t.isWildcard = false)
    (hasks : .assignment t ∈ db.clauses ∨ .completion t true ∈ db.clauses)
    (hheld : ∃ i ∈ q.inputTuples, i.type = t.type) : Gap c q db (.resource t)

section Reading

variable (s : Reading r c q)

/-- An atom that is asked for is a gap if it has no clause. -/
theorem gap_of_mem_body {cl : Clause} (hcl : cl ∈ s.database.clauses) {a : Atom} (ha : a ∈ cl.body)
    (hnone : ¬ s.database.IsHead a) : Gap c q s.database a := by
  rcases s.closed hcl ha with hhead | ⟨x, rfl⟩ | ⟨e, he, hprop⟩
  · exact absurd hhead hnone
  · refine .unmade ?_ ?_
    · rintro t ht rfl
      -- the type is on the lineage, so the task is too
      exact hnone (s.isHead_of_task (Catalog.mem_makers.2 ⟨ht, s.mem_lineageTypes_of_body hcl ha⟩))
    · rintro i hi rfl
      obtain ⟨j, hj, rfl⟩ := List.mem_map.1 (s.held_eq ▸ hi : i ∈ s.held)
      exact hnone (s.isHead_of_input hj).2
  · obtain ⟨descriptor, hdescriptor, rfl⟩ := List.mem_map.1 hprop
    have hname : descriptor.1 ∈ e.spec.descriptors.map Prod.fst := List.mem_map_of_mem hdescriptor
    obtain ⟨d, hd, hread⟩ := exists_result_of_map_eq s.declared_eq he
    refine .undescribed he (compileResource_eq_ok hread).2.1.2 hname ?_
    by_contra hsome
    exact hnone (s.isHead_of_property he hname hsome)

variable (htasks : ∀ t ∈ s.tasks, r.checkTask t = .ok ())
include htasks

/-- A rule that asks for a made instance is in the way of one that is held. -/
theorem gap_of_held {cl g : Clause} (hcl : cl ∈ s.database.clauses)
    (hkind : cl.kind = .assignment ∨ cl.kind = .completion) (hg : g ∈ s.database.clauses)
    (hgen : g.kind = .generalization) (hfirst : cl.body.head? = some g.head) :
    Gap c q s.database cl.head := by
  obtain ⟨i, hi, hhead⟩ : ∃ i ∈ q.inputTuples, g.head = .any i.type := by
    cases s.shape htasks g hg with
    | generalization hi _ => exact ⟨_, hi, rfl⟩
    | _ => cases hgen
  rw [hhead] at hfirst
  cases s.shape htasks cl hcl with
  | @assignment t hname =>
    injection Option.some.inj hfirst with htuple
    injection htuple with htype
    exact .bridged hname.2 (Or.inl hcl) ⟨i, hi, htype.symm⟩
  | @completion e _ hname =>
    cases hprops : e.properties.isEmpty with
    | false =>
      rw [hprops] at hfirst
      cases hfirst
    | true =>
      rw [hprops] at hcl hfirst
      injection Option.some.inj hfirst with htuple
      injection htuple with htype
      exact .bridged hname.2 (Or.inr hcl) ⟨i, hi, htype.symm⟩
  | inputFact _ _ => simp [Clause.inputFact] at hkind
  | generalization _ _ => simp [Clause.generalization] at hkind
  | allDependencies _ _ _ _ => simp [Clause.allDependencies] at hkind
  | descriptor _ _ _ _ _ _ _ _ => simp [Clause.dependentDescriptor] at hkind
  | task _ _ => simp [Clause.ofTask] at hkind

/-- **What is lacking below an output is a gap.** -/
theorem gap_of_lacks {o : Tuple} (ho : o ∈ s.outputs) {a : Atom}
    (hreach : ReflTransGen s.database.LeadsTo (.resource o) a) (hlacks : s.database.Lacks a) :
    Gap c q s.database a := by
  obtain ⟨hfact, hrules | ⟨cl, hcl, rfl, hkind, g, hg, hgen, hfirst⟩⟩ := hlacks
  · have hnone := Database.not_isHead hfact hrules
    rcases Database.eq_or_mem_body hreach with rfl | ⟨cl, hcl, ha⟩
    · exact absurd (s.isHead_of_reference (List.mem_append_right _ ho)) hnone
    · exact gap_of_mem_body s hcl ha hnone
  · exact gap_of_held s htasks hcl hkind hg hgen hfirst

end Reading

/-- **An output is reported as out of reach for a gap of the document**: it is the first
    that is not proved, and clauses lead from it to the gap, which is not an input. -/
theorem outputUnreachable_gap {maxDepth : Nat} {output atom : String} (h : q.compile r c = .ok db)
    (hfail : (Session.start db maxDepth).derive.1 = .error (.outputUnreachable output atom)) :
    ∃ o a, (Session.start db maxDepth).FailsFirst o (.underivable a) ∧
      output = o.text ∧ atom = a.text ∧ ReflTransGen db.LeadsTo (.resource o) a ∧
        (∀ t ∈ q.inputTuples, a ≠ .resource t) ∧ Gap c q db a := by
  obtain ⟨s, htasks, rfl⟩ := compile_eq_ok.1 h
  obtain ⟨o, f, hfirst, hsurface, hblames⟩ :=
    Session.exists_failsFirst (Session.settled_start s.database maxDepth) hfail
  have ho : o ∈ s.outputs := hfirst.mem_outputs
  cases f with
  | underivable a =>
    injection hsurface with houtput hatom
    obtain ⟨hreach, hlacks⟩ := hblames.lacks rfl
    refine ⟨o, a, hfirst, houtput, hatom, hreach, ?_, gap_of_lacks s htasks ho hreach hlacks⟩
    rintro t ht rfl
    exact (s.compiled htasks).fact?_ne_none ht hlacks.1
  | cycle path => cases hsurface
  | tooDeep a => cases hsurface

end Query

/-! ### Queries that are refused -/

namespace Demo

/-- Nothing tells what to write about. -/
def idleQuery : Query := Query.empty.withOutput "sentence" 1

/-- The catalog has no glazes. -/
def frostedQuery : Query :=
  ((Query.empty.withInput "topic" 1 [("topic", .text "leek")]).withResource "recipe"
      (((ResourceSpec.ofId 2).describe "title" [("of", "topic", 1)]).describe "glaze"
        [("of", "topic", 1)])).withOutput "recipe" 2

/-- A second sentence would have to be written, and one is held. -/
def secondQuery : Query :=
  (Query.empty.withInput "sentence" 1 [("text", .text "Leeks are mild.")]).withOutput "sentence" 2

/-- Is a query refused with an atom that is reported for an output? -/
def refuses (q : Query) (output atom : String) : Bool :=
  (planner 8).toOption.any fun p =>
    (q.compile p.registry p.catalog).toOption.any fun db =>
      match (Session.start db p.maxDepth).derive.1 with
      | .error e => decide (e = .outputUnreachable output atom)
      | .ok _ => false

theorem refuses_eq_true {q : Query} {output atom : String} (h : refuses q output atom = true) :
    ∃ p db, planner 8 = .ok p ∧ q.compile p.registry p.catalog = .ok db ∧
      (Session.start db p.maxDepth).derive.1 = .error (.outputUnreachable output atom) := by
  obtain ⟨p, hp, h⟩ := any_toOption_iff.1 h
  obtain ⟨db, hdb, h⟩ := any_toOption_iff.1 h
  rcases hd : (Session.start db p.maxDepth).derive.1 with e | ds
  · rw [hd] at h
    exact ⟨p, db, hp, hdb, hd.trans (congrArg _ (of_decide_eq_true h))⟩
  · rw [hd] at h
    cases h

/-- Is a query refused with a gap that is reported for an output? -/
def RefusedFor (q : Query) (output atom : String) : Prop :=
  ∃ p db, planner 8 = .ok p ∧ q.compile p.registry p.catalog = .ok db ∧
    (Session.start db p.maxDepth).derive.1 = .error (.outputUnreachable output atom) ∧
      ∃ o a, (Session.start db p.maxDepth).FailsFirst o (.underivable a) ∧
        output = o.text ∧ atom = a.text ∧ ReflTransGen db.LeadsTo (.resource o) a ∧
          (∀ t ∈ q.inputTuples, a ≠ .resource t) ∧ Query.Gap p.catalog q db a

end Demo

/-- Each of the refusals names its gap. -/
theorem outputUnreachable_gap_refusals :
    Demo.RefusedFor Demo.idleQuery "sentence_1" "topic_0" ∧
      Demo.RefusedFor Demo.frostedQuery "recipe_2" "glaze(recipe_2)" ∧
        Demo.RefusedFor Demo.secondQuery "sentence_2" "sentence_2" := by
  have hgap : ∀ {q output atom}, Demo.refuses q output atom = true →
      Demo.RefusedFor q output atom := by
    intro q output atom h
    obtain ⟨p, db, hp, hdb, hfail⟩ := Demo.refuses_eq_true h
    exact ⟨p, db, hp, hdb, hfail, Query.outputUnreachable_gap hdb hfail⟩
  exact ⟨hgap (by decide +kernel), hgap (by decide +kernel), hgap (by decide +kernel)⟩

end HornPlan
