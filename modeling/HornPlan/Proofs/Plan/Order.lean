/-
  HornPlan/Proofs/Plan/Order.lean
  ===============================
  **The order of the steps of a plan.**

  Proofs share their parts, and a walk over them meets a shared part again and again.
  The step of a clause is taken when the clause is met first.  `Schedule` says what this
  comes to: every clause that is used contributes its step, once, and after the steps of
  all clauses that are used below it.

  A step is taken as the clause has it, but reads the slot in which its input is found.
  This may be the slot of another tuple, though not of one of another type
  (`Database.Binds`).

  Specification, section 4.4 (linearization): steps in post-order, each clause once.
-/
import HornPlan.Proofs.Plan.Walk
import HornPlan.Proofs.Query.Reading
import HornPlan.Proofs.Search.LeastModel

namespace HornPlan

open HornPlan.Derivation

/-! ### What a step reads -/

/-- Is this the step of the clause at a position, bound to a slot of the type that it
    reads? -/
def Database.Binds (db : Database) (i : Nat) (s : Step) : Prop :=
  ∃ s₀, db.clauses[i]?.bind Clause.step = some s₀ ∧ s = { s₀ with input := s.input } ∧
    s.input.type = s₀.input.type

namespace Derivation

variable {db : Database} {ds : List Derivation}

theorem Genuine.binds (hds : Genuine db ds) (hformed : db.Formed) {n : Derivation}
    (hn : n ∈ nodesAll ds) {s : Step} (hs : step? db n = some s) : db.Binds n.clause s := by
  obtain ⟨s₀, hs₀, rfl⟩ := Option.map_eq_some_iff.1 hs
  obtain ⟨first, rest, hchildren, hfirst⟩ :=
    Plan.first_of_step hformed.readsFirst (hds.justified n hn) hs₀
  have hmem : first ∈ n.children := hchildren ▸ List.mem_cons_self
  have hnode := mem_nodesAll_of_mem_nodes hn (below_of_mem_children hmem).mem_nodes
  have htype : first.home.type = s₀.input.type := by
    apply type_home hformed _ hfirst
    exact fun m hm => hds.justified m (mem_nodesAll_of_mem_nodes hnode hm)
  refine ⟨s₀, hs₀, rfl, ?_⟩
  rw [hchildren]
  exact htype

/-! ### When clauses are met -/

/-- The nodes that contribute their steps, in the order of the plan. -/
def contributors (db : Database) (ds : List Derivation) : List Derivation :=
  (firsts ds).filter fun n => (step? db n).isSome

theorem pairwise_of_split {α : Type} {R : α → α → Prop} {l : List α}
    (h : ∀ before a after, l = before ++ a :: after → ∀ b ∈ before, R b a) : l.Pairwise R := by
  induction l using List.reverseRecOn with
  | nil => exact .nil
  | append_singleton l a ih =>
    rw [List.pairwise_append]
    refine ⟨ih ?_, List.pairwise_singleton R a, ?_⟩
    · intro before b after hl
      apply h before b (after ++ [a])
      rw [hl, List.append_assoc, List.cons_append]
    · intro b hb c hc
      rw [List.mem_singleton.1 hc]
      exact h l a [] rfl b hb

theorem idxOf_lt_idxOf {l₁ l₂ : List Nat} {i j : Nat} (hi : i ∈ l₁) (hj : j ∉ l₁) :
    (l₁ ++ j :: l₂).idxOf i < (l₁ ++ j :: l₂).idxOf j := by
  rw [List.idxOf_append_of_mem hi, List.idxOf_append_of_notMem hj, List.idxOf_cons_self]
  have hlt := List.idxOf_lt_length_of_mem hi
  omega

section Genuine

variable (hds : Genuine db ds)
include hds

theorem Genuine.mem_contributors {n : Derivation} : n ∈ contributors db ds ↔
    n ∈ nodesAll ds ∧ (db.clauses[n.clause]?.bind Clause.step).isSome := by
  rw [contributors, List.mem_filter, hds.mem_firsts, step?, Option.isSome_map]

/-- A clause is met where its node stands, and not before. -/
theorem Genuine.clause_notMem {before after : List Derivation} {n : Derivation}
    (hsplit : firsts ds = before ++ n :: after) : n.clause ∉ before.map clause := by
  intro hmem
  obtain ⟨m, hm, hclause⟩ := List.mem_map.1 hmem
  have hnode : ∀ k ∈ before ++ n :: after, k ∈ nodesAll ds := by
    intro k hk
    exact hds.mem_firsts.1 (hsplit ▸ hk)
  have heq : m = n := Plan.eq_of_clause_eq hds (hnode m (List.mem_append_left _ hm))
    (hnode n (List.mem_append_right _ List.mem_cons_self)) hclause
  have hnodup := (nodup_firsts ds).of_map
  rw [hsplit, List.nodup_append] at hnodup
  exact hnodup.2.2 m hm n List.mem_cons_self heq

theorem Genuine.idxOf_clause_lt {before after : List Derivation} {n m : Derivation}
    (hsplit : firsts ds = before ++ n :: after) (hm : m ∈ before) :
    ((nodesAll ds).map clause).idxOf m.clause < ((nodesAll ds).map clause).idxOf n.clause := by
  obtain ⟨earlier, later, hl, -, hmem⟩ := hds.split_firsts hsplit
  rw [hl, List.map_append, List.map_cons]
  apply idxOf_lt_idxOf
  · exact List.mem_map_of_mem ((hmem m).1 hm)
  · intro hclause
    obtain ⟨k, hk, hclause⟩ := List.mem_map.1 hclause
    exact hds.clause_notMem hsplit (List.mem_map.2 ⟨k, (hmem k).2 hk, hclause⟩)

end Genuine

end Derivation

/-! ### Schedules -/

namespace Plan

/-- The clauses whose steps are taken on a walk over some proofs, and their steps. -/
structure Schedule (db : Database) (ds : List Derivation) (clauses : List Nat)
    (steps : List Step) : Prop where
  /-- No clause comes twice. -/
  nodup : clauses.Nodup
  /-- The clauses are those of the nodes, as far as they have steps. -/
  mem_iff : ∀ i, i ∈ clauses ↔
    ∃ n ∈ nodesAll ds, n.clause = i ∧ (db.clauses[i]?.bind Clause.step).isSome
  /-- They stand in the order in which they are met in post-order. -/
  met : clauses.Pairwise fun i j =>
    ((nodesAll ds).map Derivation.clause).idxOf i < ((nodesAll ds).map Derivation.clause).idxOf j
  /-- Each of them contributes its step. -/
  binds : List.Forall₂ db.Binds clauses steps
  /-- What is used below a node comes before it. -/
  below : ∀ n ∈ nodesAll ds, ∀ m : Derivation, m.Below n → n.clause ∈ clauses →
    m.clause ∈ clauses → clauses.idxOf m.clause < clauses.idxOf n.clause

section Schedule

variable {db : Database} {ds : List Derivation} (hds : Genuine db ds) (hformed : db.Formed)
include hds hformed

/-- The nodes of a list contribute the steps of those among them that have one. -/
theorem binds_filterMap (l : List Derivation) : (∀ n ∈ l, n ∈ nodesAll ds) →
    List.Forall₂ db.Binds ((l.filter fun n => (step? db n).isSome).map Derivation.clause)
      (l.filterMap (step? db)) := by
  induction l with
  | nil => exact fun _ => .nil
  | cons n rest ih =>
    intro hl
    have hrest := ih fun m hm => hl m (List.mem_cons_of_mem _ hm)
    rcases hs : step? db n with _ | s
    · simpa [hs] using hrest
    · have hbinds := hds.binds hformed (hl n List.mem_cons_self) hs
      simpa [hs] using List.Forall₂.cons hbinds hrest

omit hformed in
theorem mem_contributors_of_clause {n : Derivation} (hn : n ∈ nodesAll ds)
    (h : n.clause ∈ (contributors db ds).map Derivation.clause) : n ∈ contributors db ds := by
  obtain ⟨k, hk, hclause⟩ := List.mem_map.1 h
  rwa [← eq_of_clause_eq hds (hds.mem_contributors.1 hk).1 hn hclause]

omit hformed in
theorem idxOf_contributor_lt {n m : Derivation} (hn : n ∈ contributors db ds)
    (hm : m ∈ contributors db ds) (hbelow : m.Below n) :
    ((contributors db ds).map Derivation.clause).idxOf m.clause <
      ((contributors db ds).map Derivation.clause).idxOf n.clause := by
  obtain ⟨hfirst, hstep⟩ := List.mem_filter.1 hn
  obtain ⟨before, after, hsplit⟩ := List.append_of_mem hfirst
  rw [contributors, hsplit, List.filter_append,
    List.filter_cons_of_pos (p := fun n => (step? db n).isSome) hstep, List.map_append,
    List.map_cons]
  apply idxOf_lt_idxOf
  · have hmstep := (List.mem_filter.1 hm).2
    exact List.mem_map_of_mem (List.mem_filter.2 ⟨hds.below_firsts hsplit hbelow, hmstep⟩)
  · intro hclause
    exact hds.clause_notMem hsplit (List.map_subset _ (List.filter_subset_self _) hclause)

/-- **The steps of genuine proofs are a schedule.** -/
theorem schedule_contributors : Schedule db ds ((contributors db ds).map Derivation.clause)
    ((firsts ds).filterMap (step? db)) := by
  constructor
  · rw [List.Nodup, List.pairwise_map]
    refine List.Pairwise.filter _ (pairwise_of_split ?_)
    intro before n after hsplit m hm hclause
    exact hds.clause_notMem hsplit (List.mem_map.2 ⟨m, hm, hclause⟩)
  · intro i
    constructor
    · intro hi
      obtain ⟨n, hn, rfl⟩ := List.mem_map.1 hi
      obtain ⟨hnode, hstep⟩ := hds.mem_contributors.1 hn
      exact ⟨n, hnode, rfl, hstep⟩
    · rintro ⟨n, hnode, rfl, hstep⟩
      exact List.mem_map_of_mem (hds.mem_contributors.2 ⟨hnode, hstep⟩)
  · rw [List.pairwise_map]
    refine List.Pairwise.filter _ (pairwise_of_split ?_)
    intro before n after hsplit m hm
    exact hds.idxOf_clause_lt hsplit hm
  · exact binds_filterMap hds hformed _ fun n hn => hds.mem_firsts.1 hn
  · intro n hn m hbelow hntaken hmtaken
    have hmnode := mem_nodesAll_of_mem_nodes hn hbelow.mem_nodes
    exact idxOf_contributor_lt hds (mem_contributors_of_clause hds hn hntaken)
      (mem_contributors_of_clause hds hmnode hmtaken) hbelow

end Schedule

/-- **A plan of handed-out proofs loses no step, repeats none, and respects what depends
    on what**: its steps are a schedule.  Only of no proofs at all there is no plan. -/
theorem ofDerivations_schedule (db : Database) (hformed : db.Formed) (maxDepth : Nat)
    (requests : List Session.Request) (ds : List (Tuple × Derivation))
    (hds : ∀ td ∈ ds,
      Session.HandedOut (Session.answers requests (Session.start db maxDepth)).1 td.2) :
    (ds = [] → ofDerivations db ds = .error .emptyPlan) ∧
      (ds ≠ [] → ∃ p clauses, ofDerivations db ds = .ok p ∧
        Schedule db (ds.map Prod.snd) clauses p.steps) := by
  obtain ⟨hnext, hkept⟩ := Session.answers_succeed requests (Session.settled_start db maxDepth)
  have hcoherent := hnext.settled.coherent
  rw [hnext.database] at hcoherent
  have hgenuine : Genuine db (ds.map Prod.snd) := by
    apply hcoherent.genuine
    intro d hd
    obtain ⟨td, htd, rfl⟩ := List.mem_map.1 hd
    exact hkept td.2 (hds td htd)
  constructor
  · rintro rfl
    rfl
  · intro hne
    have hlast := List.getLast?_eq_some_getLast hne
    have hsteps : (Walk.visitAll db (ds.map Prod.snd) .start).steps =
        (firsts (ds.map Prod.snd)).filterMap (step? db) :=
      (traced hgenuine hformed.readsFirst).steps
    have hschedule := schedule_contributors hgenuine hformed
    rw [← hsteps] at hschedule
    unfold ofDerivations
    rw [hlast]
    exact ⟨_, _, rfl, hschedule⟩

/-- The answers of a session that is asked for a paragraph, and then for any sentence. -/
def rewritingAnswers : List (Except Error (List Derivation)) :=
  (Session.answers [.prove (.resource (Query.instanceOf "paragraph" 1)),
    .prove (.resource (.wildcard "sentence"))] (Session.start Session.rewriting 6)).1

def rewritingProofs : List (Tuple × Derivation) :=
  rewritingAnswers.flatMap fun answer => (answer.toOption.getD []).map fun d => (d.atom.subject, d)

theorem handedOut_of_mem_rewritingProofs {td : Tuple × Derivation} (h : td ∈ rewritingProofs) :
    Session.HandedOut rewritingAnswers td.2 := by
  obtain ⟨answer, hanswer, h⟩ := List.mem_flatMap.1 h
  obtain ⟨d, hd, rfl⟩ := List.mem_map.1 h
  cases answer with
  | error e => cases hd
  | ok ds => exact ⟨ds, hanswer, hd⟩

/-- Both proofs need a sentence about the topic.  It is written once, before the
    paragraph. -/
theorem ofDerivations_schedule_rewriting : ∃ p clauses,
    ofDerivations Session.rewriting rewritingProofs = .ok p ∧
      p.taskNames = ["WriteSentence", "ExpandParagraph"] ∧
        Schedule Session.rewriting (rewritingProofs.map Prod.snd) clauses p.steps := by
  have hformed : Session.rewriting.Formed := by
    apply Database.Formed.pushAll
    · exact List.forall_mem_nil _
    · simp only [List.forall_mem_cons]
      exact ⟨.inputFact _, .generalization _, .task _, .task _, .task _, .assignment _,
        List.forall_mem_nil _⟩
  have hsome : rewritingProofs ≠ [] := List.isEmpty_eq_false_iff.1 (by decide +kernel)
  have hnames : (ofDerivations Session.rewriting rewritingProofs).toOption.map taskNames =
      some ["WriteSentence", "ExpandParagraph"] := by decide +kernel
  obtain ⟨-, hplan⟩ := ofDerivations_schedule Session.rewriting hformed 6 _ rewritingProofs
    fun _ => handedOut_of_mem_rewritingProofs
  obtain ⟨p, clauses, hp, hschedule⟩ := hplan hsome
  rw [hp] at hnames
  exact ⟨p, clauses, hp, Option.some.inj hnames, hschedule⟩

end Plan

end HornPlan
