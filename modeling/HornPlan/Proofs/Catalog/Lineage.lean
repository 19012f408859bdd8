/-
  HornPlan/Proofs/Catalog/Lineage.lean
  ====================================
  **Which tasks are on a lineage, and what checking them finds.**

  The lineage of types is computed in rounds over the tasks that are left.  A queue of
  types does as well: `worklist` takes up one type after the other, and puts behind the
  queue what the tasks that make the type take.  The queue may hold a type many times,
  and types may feed one another in cycles.  It runs empty all the same: a type that is
  seen for the first time either is made by tasks, which then count as used up, or adds
  nothing to the queue.

  What carries through is a `Frontier`.  What has been seen or is queued holds the roots
  and leads to them, and what a task takes is seen or queued once what it makes has been
  seen.  With the queue empty this leaves backward reachability (`mem_worklist`).

  A task is on the lineage if it begins a `Chain` of tasks that ends with one of the
  types.  `checkedLineage_exact` says that these are the tasks that are found, in the
  order of the catalog, and that the first of them with a type that is not registered is
  what is reported.

  Specification, section 4.3, step 2, of `lineage_tasks`.
-/
import HornPlan.Demo
import HornPlan.Proofs.Catalog.History
import HornPlan.Proofs.Catalog.Reachability
import HornPlan.Proofs.Query.Reading
import Mathlib.Data.List.Chain
import Mathlib.Tactic.Tauto

namespace HornPlan.Catalog

open Relation

/-! ### A queue of types -/

theorem others_cons (tasks : List Task) (t : String) (seen : List String) :
    others tasks (t :: seen) = others (others tasks seen) [t] := by
  simp [others, List.filter_filter]

theorem makers_others {tasks : List Task} {t : String} {seen : List String} (ht : t ∉ seen) :
    makers (others tasks seen) [t] = makers tasks [t] := by
  rw [makers, others, List.filter_filter]
  refine List.filter_congr fun task _ => ?_
  by_cases hout : task.output = t <;> simp [hout, ht]

/-- A type that is seen for the first time uses tasks up, or no task makes it. -/
theorem length_others_cons (tasks : List Task) {t : String} {seen : List String} (ht : t ∉ seen) :
    (others tasks (t :: seen)).length < (others tasks seen).length ∨
      others tasks (t :: seen) = others tasks seen ∧ makers tasks [t] = [] := by
  rw [others_cons]
  by_cases hmakers : makers tasks [t] = []
  · refine Or.inr ⟨List.filter_eq_self.2 fun task htask => decide_eq_true fun hout => ?_, hmakers⟩
    have hmaker : task ∈ makers tasks [t] := mem_makers.2 ⟨(mem_others.1 htask).1, hout⟩
    rw [hmakers] at hmaker
    cases hmaker
  · exact Or.inl (length_others_lt (by rwa [makers_others ht]))

/-- What the tasks take that make a type, as far as it has not been seen. -/
def unseenInputs (tasks : List Task) (seen : List String) (t : String) : List String :=
  ((makers tasks [t]).map Task.input).filter (· ∉ seen)

/-- Goes through a queue of types, and puts behind it what the tasks take that make a
    type that is seen for the first time. -/
def worklist (tasks : List Task) (seen : List String) : List String → List String
  | [] => seen
  | t :: queue =>
    if t ∈ seen then worklist tasks seen queue
    else worklist tasks (t :: seen) (queue ++ unseenInputs tasks (t :: seen) t)
termination_by queue => ((others tasks seen).length, queue.length)
decreasing_by
  · exact Prod.Lex.right _ (Nat.lt_succ_self _)
  · rename_i hnew
    rcases length_others_cons tasks hnew with hlt | ⟨hsame, hnone⟩
    · exact Prod.Lex.left _ _ hlt
    · rw [hsame, unseenInputs, hnone, List.map_nil, List.filter_nil, List.append_nil]
      exact Prod.Lex.right _ (Nat.lt_succ_self _)

/-- What a worklist keeps up from one type to the next. -/
structure Frontier (tasks : List Task) (roots seen queue : List String) : Prop where
  root : roots ⊆ seen ++ queue
  input : ∀ task ∈ tasks, task.output ∈ seen → task.input ∈ seen ++ queue
  leads : ∀ x ∈ seen ++ queue, ∃ root ∈ roots, ReflTransGen (Feeds tasks) x root

namespace Frontier

variable {tasks : List Task} {roots seen queue : List String} {t : String}

theorem start (tasks : List Task) (roots : List String) : Frontier tasks roots [] roots where
  root := List.Subset.refl _
  input _ _ hout := nomatch hout
  leads x hx := ⟨x, hx, .refl⟩

theorem skip (h : Frontier tasks roots seen (t :: queue)) (ht : t ∈ seen) :
    Frontier tasks roots seen queue := by
  have hsub : seen ++ t :: queue ⊆ seen ++ queue := by simp [ht]
  refine ⟨List.Subset.trans h.root hsub, fun task htask hout => hsub (h.input task htask hout), ?_⟩
  intro x hx
  exact h.leads x (by simp_all [or_left_comm])

theorem take (h : Frontier tasks roots seen (t :: queue)) :
    Frontier tasks roots (t :: seen) (queue ++ unseenInputs tasks (t :: seen) t) := by
  have hsub : seen ++ t :: queue ⊆ t :: seen ++ (queue ++ unseenInputs tasks (t :: seen) t) := by
    intro x
    simp only [List.mem_append, List.mem_cons]
    tauto
  refine ⟨List.Subset.trans h.root hsub, ?_, ?_⟩
  · intro task htask hout
    by_cases hseen : task.input ∈ t :: seen
    · exact List.mem_append_left _ hseen
    rcases List.mem_cons.1 hout with rfl | hout
    · have hmaker : task ∈ makers tasks [task.output] :=
        mem_makers.2 ⟨htask, List.mem_singleton.2 rfl⟩
      refine List.mem_append_right _ (List.mem_append_right _ (List.mem_filter.2 ⟨?_, ?_⟩))
      · exact List.mem_map_of_mem hmaker
      · exact decide_eq_true hseen
    · exact hsub (h.input task htask hout)
  · intro x hx
    by_cases hold : x ∈ seen ++ t :: queue
    · exact h.leads x hold
    have hnew : x ∈ unseenInputs tasks (t :: seen) t := by
      simp only [List.mem_append, List.mem_cons] at hx hold
      tauto
    -- what a task takes leads on to what it makes
    obtain ⟨task, htask, rfl⟩ := List.mem_map.1 (List.mem_filter.1 hnew).1
    obtain ⟨htask, hout⟩ := mem_makers.1 htask
    obtain ⟨root, hroot, hreach⟩ := h.leads t (by simp)
    exact ⟨root, hroot, hreach.head ⟨task, htask, rfl, List.mem_singleton.1 hout⟩⟩

theorem worklist (h : Frontier tasks roots seen queue) :
    Frontier tasks roots (Catalog.worklist tasks seen queue) [] := by
  fun_induction Catalog.worklist tasks seen queue with
  | case1 => exact h
  | case2 seen t queue ht ih => exact ih (h.skip ht)
  | case3 seen t queue _ ih => exact ih h.take

/-- When the queue is empty, all that leads to the roots has been seen. -/
theorem mem_seen (h : Frontier tasks roots seen []) {x : String} :
    x ∈ seen ↔ ∃ root ∈ roots, ReflTransGen (Feeds tasks) x root := by
  constructor
  · exact fun hx => h.leads x (List.mem_append_left _ hx)
  · rintro ⟨root, hroot, hreach⟩
    induction hreach using ReflTransGen.head_induction_on with
    | refl => simpa using h.root hroot
    | head hstep _ ih =>
      obtain ⟨task, htask, rfl, rfl⟩ := hstep
      simpa using h.input task htask ih

end Frontier

/-- **The types that a worklist sees are those on the lineage.** -/
theorem mem_worklist {tasks : List Task} {roots : List String} {x : String} :
    x ∈ worklist tasks [] roots ↔ x ∈ closure tasks roots := by
  rw [(Frontier.start tasks roots).worklist.mem_seen, mem_closure]

theorem lineage_eq_makers (c : Catalog) (types : List String) :
    c.lineage types = makers c.tasks (worklist c.tasks [] types) := by
  refine List.filter_congr fun task _ => ?_
  rw [decide_eq_decide, mem_worklist]

/-! ### Chains of tasks -/

/-- Tasks each of which makes what the next one takes, the last one of some types. -/
structure Chain (c : Catalog) (types : List String) (ts : List Task) : Prop where
  tasks : ∀ t ∈ ts, t ∈ c.tasks
  linked : ts.IsChain fun s t => s.output = t.input
  ends : ∃ last ∈ ts.getLast?, last.output ∈ types

theorem Chain.feeds {c : Catalog} {types : List String} {t : Task} {rest : List Task}
    (h : c.Chain types (t :: rest)) :
    ∃ root ∈ types, ReflTransGen (Feeds c.tasks) t.output root := by
  induction rest generalizing t with
  | nil =>
    obtain ⟨last, hlast, hout⟩ := h.ends
    cases hlast
    exact ⟨t.output, hout, .refl⟩
  | cons u rest ih =>
    obtain ⟨htask, hrest⟩ := List.forall_mem_cons.1 h.tasks
    obtain ⟨hlink, hlinked⟩ := List.isChain_cons_cons.1 h.linked
    obtain ⟨root, hroot, hreach⟩ := ih ⟨hrest, hlinked, by simpa using h.ends⟩
    exact ⟨root, hroot, hreach.head ⟨u, hrest u List.mem_cons_self, hlink.symm, rfl⟩⟩

theorem exists_chain {c : Catalog} {types : List String} {x root : String} (hroot : root ∈ types)
    (hreach : ReflTransGen (Feeds c.tasks) x root) :
    ∀ t ∈ c.tasks, t.output = x → ∃ rest, c.Chain types (t :: rest) := by
  induction hreach using ReflTransGen.head_induction_on with
  | refl =>
    rintro t ht rfl
    exact ⟨[], by simpa using ht, .singleton t, t, rfl, hroot⟩
  | head hstep _ ih =>
    rintro t ht rfl
    obtain ⟨u, hu, hlink, hout⟩ := hstep
    obtain ⟨rest, hchain⟩ := ih u hu hout
    refine ⟨u :: rest, List.forall_mem_cons.2 ⟨ht, hchain.tasks⟩, ?_, ?_⟩
    · exact List.isChain_cons_cons.2 ⟨hlink.symm, hchain.linked⟩
    · simpa using hchain.ends

/-- **A task is on the lineage if it begins a chain of tasks that ends there.** -/
theorem mem_lineage_iff_chain {c : Catalog} {types : List String} {t : Task} :
    t ∈ c.lineage types ↔ ∃ rest, c.Chain types (t :: rest) := by
  rw [mem_lineage]
  constructor
  · rintro ⟨ht, root, hroot, hreach⟩
    exact exists_chain hroot hreach t ht rfl
  · rintro ⟨rest, hchain⟩
    exact ⟨hchain.tasks t List.mem_cons_self, hchain.feeds⟩

/-! ### Catalogs in which tasks have names of their own -/

/-- Is the catalog one that registering tasks and descriptors leads to? -/
inductive Built : Catalog → Prop
  | empty : Built .empty
  | task {c c' : Catalog} {t : Task} (hc : Built c) (h : c.registerTask t = .ok c') : Built c'
  | descriptor {c c' : Catalog} {name : String} {t : Task} (hc : Built c)
    (h : c.registerDescriptor name t = .ok c') : Built c'

theorem Built.tasks {c c' : Catalog} {ts : List Task} (hc : c.Built)
    (h : ts.foldlM registerTask c = .ok c') : c'.Built := by
  induction ts generalizing c with
  | nil =>
    cases h
    exact hc
  | cons t ts ih =>
    obtain ⟨next, hnext, h⟩ := bind_eq_ok.1 h
    exact ih (hc.task hnext) h

/-- A catalog is the outcome of a history in which nothing has been refused. -/
theorem Built.exists_history {c : Catalog} (h : c.Built) : ∃ qs, after qs = c := by
  induction h with
  | empty => exact ⟨[], rfl⟩
  | @task c c' t _ h ih =>
    obtain ⟨qs, rfl⟩ := ih
    exact ⟨_, (after_concat qs (.task t)).trans (Registration.result_eq_ok.1 h).2⟩
  | @descriptor c c' name t _ h ih =>
    obtain ⟨qs, rfl⟩ := ih
    exact ⟨_, (after_concat qs (.descriptor name t)).trans (Registration.result_eq_ok.1 h).2⟩

/-- No two tasks that have been registered have the same name. -/
theorem Built.nodup_names {c : Catalog} (h : c.Built) : (c.tasks.map Task.name).Nodup := by
  obtain ⟨qs, rfl⟩ := h.exists_history
  exact (coherent_after qs).1.nodup

/-! ### Checked lineages -/

/-- Are both types of a task registered? -/
def Registered (r : Registry) (t : Task) : Prop :=
  r.contains t.input = true ∧ r.contains t.output = true

instance (r : Registry) (t : Task) : Decidable (Registered r t) :=
  inferInstanceAs (Decidable (_ ∧ _))

theorem checkTask_of_not_registered {r : Registry} {t : Task} (h : ¬ Registered r t) :
    r.checkTask t = .error (.unresolvedAlias (if r.contains t.input then t.output else t.input)
      ("task " ++ t.name)) := by
  unfold Registry.checkTask
  by_cases hin : r.contains t.input = true
  · have hout : r.contains t.output = false := by simpa [Registered, hin] using h
    simp [List.find?, hin, hout]
  · simp [List.find?, hin]

/-- **The lineage is what a worklist finds, and what chains of tasks lead to.**  Checking
    it yields the tasks, or the first type of theirs that is not registered. -/
theorem checkedLineage_exact (c : Catalog) (r : Registry) (types : List String) :
    (c.lineage types = c.tasks.filter fun t => t.output ∈ worklist c.tasks [] types) ∧
      (∀ t, t ∈ c.lineage types ↔ ∃ rest, c.Chain types (t :: rest)) ∧
      (c.Built → ((c.lineage types).map Task.name).Nodup) ∧
      ((∀ t ∈ c.lineage types, Registered r t) →
        c.checkedLineage r types = .ok (c.lineage types)) ∧
      ∀ before t after, c.lineage types = before ++ t :: after →
        (∀ s ∈ before, Registered r s) → ¬ Registered r t →
          c.checkedLineage r types = .error (.unresolvedAlias
            (if r.contains t.input then t.output else t.input) ("task " ++ t.name)) := by
  have hchecked : ∀ {ts : List Task}, (∀ t ∈ ts, Registered r t) →
      ∀ t ∈ ts, r.checkTask t = .ok () := by
    intro ts hts t ht
    exact Query.checkTask_eq_ok.2 (hts t ht)
  refine ⟨lineage_eq_makers c types, fun t => mem_lineage_iff_chain, ?_, ?_, ?_⟩
  · exact fun hbuilt => hbuilt.nodup_names.sublist (List.filter_sublist.map Task.name)
  · intro hall
    exact Query.checkedLineage_eq_ok.2 ⟨hchecked hall, rfl⟩
  · intro before t after hsplit hbefore ht
    have herror : (before ++ t :: after).forM r.checkTask = .error _ :=
      forM_eq_error (hchecked hbefore) (checkTask_of_not_registered ht)
    rw [← hsplit] at herror
    rw [checkedLineage, herror]
    rfl

/-! ### Sentences that are made of paragraphs, and paragraphs of sentences -/

theorem built_of_planner {maxDepth : Nat} {p : Planner} (h : Demo.planner maxDepth = .ok p) :
    p.catalog.Built := by
  obtain ⟨_, -, h⟩ := bind_eq_ok.1 h
  obtain ⟨c, hcatalog, h⟩ := bind_eq_ok.1 h
  cases h
  obtain ⟨_, htasks, hcatalog⟩ := bind_eq_ok.1 hcatalog
  obtain ⟨_, htitle, hcatalog⟩ := bind_eq_ok.1 hcatalog
  obtain ⟨_, hingredients, hsteps⟩ := bind_eq_ok.1 hcatalog
  exact (((Built.empty.tasks htasks).descriptor htitle).descriptor hingredients).descriptor hsteps

/-- The tasks that lead to sentences, the cycle through paragraphs included; and the
    type that is missing when nothing is registered. -/
theorem checkedLineage_exact_sentences : ∃ p, Demo.planner 8 = .ok p ∧
    ((p.catalog.lineage ["sentence"]).map Task.name).Nodup ∧
      p.catalog.checkedLineage p.registry ["sentence"] = .ok (p.catalog.lineage ["sentence"]) ∧
        p.catalog.checkedLineage .empty ["sentence"] =
          .error (.unresolvedAlias "topic" "task WriteSentence") := by
  have hall : ((Demo.planner 8).toOption.any fun p =>
      decide (∀ t ∈ p.catalog.lineage ["sentence"], Registered p.registry t) &&
        (p.catalog.lineage ["sentence"]).head?.any fun t =>
          decide (t.name = "WriteSentence" ∧ t.input = "topic")) = true := by decide +kernel
  obtain ⟨p, hp, hall⟩ := any_toOption_iff.1 hall
  simp only [Bool.and_eq_true, decide_eq_true_eq, Option.any_eq_true] at hall
  obtain ⟨hregistered, t, hfirst, hname, hinput⟩ := hall
  obtain ⟨after, hsplit⟩ := List.head?_eq_some_iff.1 hfirst
  obtain ⟨-, -, hnodup, hok, -⟩ := checkedLineage_exact p.catalog p.registry ["sentence"]
  obtain ⟨-, -, -, -, herror⟩ := checkedLineage_exact p.catalog .empty ["sentence"]
  refine ⟨p, hp, hnodup (built_of_planner hp), hok hregistered, ?_⟩
  have hnone : ¬ Registered .empty t := fun h => nomatch h.1
  have hmissing := herror [] t after hsplit nofun hnone
  rw [hmissing, hname, hinput]
  rfl

end HornPlan.Catalog
