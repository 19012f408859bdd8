/-
  HornPlan/Proofs/Plan/Chain.lean
  ===============================
  **Tasks that work on each other's results.**

  If each task takes what the one before it makes, their generic steps form a plan, and
  the plan hands a value on from task to task: what it yields is the fold of the tasks
  over the value, and the first error of a task ends both (`execute_chain`).

  The executor knows of no such value.  It has a store, and the same slot is written
  again whenever a type recurs along the chain.  What holds all the same is that the
  result of the tasks so far is in the slot of its type, which is the slot that the next
  step reads (`Leads.foldlM_of_runSteps`).  From there the courses that a run can take
  are those of the fold (`Relay`).

  Specification, section E.7: on a chain, execution is the fold of `invoke`.
-/
import HornPlan.Demo
import HornPlan.Proofs.Plan.Course
import HornPlan.Proofs.Plan.Denotation
import Mathlib.Data.List.Chain

namespace HornPlan

namespace Step

theorem run_of_type_ne (s : Step) (i : Nat) {store : Store} {value : Resource}
    (hvalue : store.lookup s.input = some value) (htype : value.type ≠ s.task.input) :
    s.run i store = .error (.typeMismatch s.name s.task.input value.type) := by
  rw [run, hvalue]
  exact if_neg htype

theorem Fails.invoke {s : Step} {value : Resource} {e : Error} (h : s.Fails value e)
    (htype : value.type = s.task.input) : s.task.invoke value = .error e := by
  cases h with
  | input hne => exact absurd htype hne
  | work _ hwork => simp [Task.invoke, hwork, name]
  | output _ hwork hresult => simp [Task.invoke, hwork, hresult, name]

end Step

namespace Plan

theorem observe_of_first_fails {p : Plan} {seed : Store} {s : Step} {rest : List Step} {e : Error}
    (hsteps : p.steps = s :: rest) (hrun : s.run 0 seed = .error e)
    (hverify : p.verifyFrom (seed.map Prod.fst) = .ok ()) : p.observe seed = ([⟨0, s, some e⟩], .error e) := by
  have hempty : p.isEmpty = false := by simp [isEmpty, hsteps]
  have hruns : runSteps 0 p.steps seed = ([⟨0, s, some e⟩], .error e) := by
    rw [hsteps, runSteps, hrun]
  simp only [observe, hempty, hverify]
  rw [hruns]
  rfl

/-! ### From one type to another -/

/-- The tasks lead from a type to another one, each taking what the one before it makes. -/
inductive Leads : String → List Task → String → Prop
  | nil {type : String} : Leads type [] type
  | cons {source target : String} {task : Task} {rest : List Task} (hinput : task.input = source)
    (h : Leads task.output rest target) : Leads source (task :: rest) target

variable {source target : String} {tasks before after : List Task}

theorem leads_of_isChain {first : Task} {rest : List Task}
    (h : (first :: rest).IsChain fun t u => t.output = u.input) :
    Leads first.input (first :: rest) (rest.getLastD first).output := by
  induction rest generalizing first with
  | nil => exact .cons rfl .nil
  | cons next rest ih =>
    obtain ⟨hnext, hrest⟩ := List.isChain_cons_cons.1 h
    rw [List.getLastD_cons]
    exact .cons rfl (hnext ▸ ih hrest)

theorem Leads.split {task : Task} (h : Leads source (before ++ task :: after) target) :
    Leads source before task.input := by
  induction before generalizing source with
  | nil =>
    cases h with
    | cons hinput _ => exact hinput ▸ .nil
  | cons first rest ih =>
    cases h with
    | cons hinput h => exact .cons hinput (ih h)

theorem Leads.filled (h : Leads source tasks target) :
    Filled [.wildcard source] (tasks.map .generic) (.wildcard target) := by
  induction h with
  | nil => exact Or.inl List.mem_cons_self
  | cons _ _ ih =>
    refine Or.inr ?_
    rcases ih with hstart | ⟨s, hs, hout⟩
    · exact ⟨_, List.mem_cons_self, (List.mem_singleton.1 hstart).symm⟩
    · exact ⟨s, List.mem_cons_of_mem _ hs, hout⟩

theorem Leads.verifyFrom (h : Leads source tasks target) :
    (ofTypes (tasks.map .generic) source target).verifyFrom [.wildcard source] = .ok () := by
  refine verifyFrom_eq_ok.2 ⟨?_, h.filled⟩
  intro before s after hsplit
  obtain ⟨before, tail, rfl, rfl, htail⟩ := List.map_eq_append_iff.1 hsplit
  obtain ⟨task, after, rfl, rfl, -⟩ := List.map_eq_cons_iff.1 htail
  exact h.split.filled

/-! ### The value that is handed on -/

/-- **The result so far is in the slot that the next step reads.** -/
theorem Leads.foldlM_of_runSteps (h : Leads source tasks target) :
    ∀ {i : Nat} {store store' : Store} {value : Resource},
      store.lookup (.wildcard source) = some value → value.type = source →
        (runSteps i (tasks.map .generic) store).2 = .ok store' →
          ∃ result, tasks.foldlM (fun v t => t.invoke v) value = .ok result ∧
            result.type = target ∧ store'.lookup (.wildcard target) = some result := by
  induction h with
  | nil =>
    rintro i store _ value hvalue htype ⟨⟩
    exact ⟨value, rfl, htype, hvalue⟩
  | @cons source target task rest hinput _ ih =>
    intro i store store' value hvalue htype hrun
    subst hinput
    rw [List.map_cons, runSteps] at hrun
    rcases hstep : (Step.generic task).run i store with e | next
    · rw [hstep] at hrun
      cases hrun
    · rw [hstep] at hrun
      obtain ⟨v, made, hv, -, hinvoke, rfl⟩ := Step.run_eq_ok_iff.1 hstep
      cases hvalue.symm.trans hv
      -- also if this is the slot that has been read: what was there is of no use any more
      have hslot : ((Step.generic task).keep made store).lookup (.wildcard task.output) =
          some made :=
        List.lookup_cons_self
      obtain ⟨result, hfold, hresult, hfound⟩ := ih hslot (Derivation.invoke_type hinvoke) hrun
      refine ⟨result, ?_, hresult, hfound⟩
      rw [List.foldlM_cons, show task.invoke value = .ok made from hinvoke]
      exact hfold

/-- Tasks are invoked one after the other, each on the result of the one before it: they
    all succeed, or one fails after those before it have succeeded. -/
inductive Relay (tasks : List Task) (value : Resource) : List Event × Except Error Resource → Prop
  | finished {result : Resource} (hfold : tasks.foldlM (fun v t => t.invoke v) value = .ok result) :
    Relay tasks value (successes 0 (tasks.map .generic), .ok result)
  | stopped {before after : List Task} {task : Task} {made : Resource} {e : Error}
    (hsplit : tasks = before ++ task :: after)
    (hbefore : before.foldlM (fun v t => t.invoke v) value = .ok made)
    (hfails : task.invoke made = .error e) :
    Relay tasks value
      (successes 0 (before.map .generic) ++ [⟨before.length, .generic task, some e⟩], .error e)

theorem Relay.snd {value : Resource} {outcome : List Event × Except Error Resource}
    (h : Relay tasks value outcome) :
    outcome.2 = tasks.foldlM (fun v t => t.invoke v) value := by
  cases h with
  | finished hfold => exact hfold.symm
  | stopped hsplit hbefore hfails =>
    simp only [hsplit, List.foldlM_append, hbefore, List.foldlM_cons, hfails, bind, Except.bind]

theorem Leads.relay (h : Leads source tasks target) (hne : tasks ≠ []) {value : Resource}
    (htype : value.type = source) :
    Relay tasks value
      ((ofTypes (tasks.map .generic) source target).observe [(.wildcard source, value)]) := by
  have hseed : List.lookup (.wildcard source) [(Tuple.wildcard source, value)] = some value :=
    List.lookup_cons_self
  have hcourse :=
    (ofTypes (tasks.map .generic) source target).observe_course [(.wildcard source, value)]
  generalize Plan.observe _ _ = outcome at hcourse ⊢
  cases hcourse with
  | refused hrefuses =>
    rcases hrefuses with ⟨hnil, -⟩ | ⟨-, hnot⟩
    · exact absurd (List.map_eq_nil_iff.1 hnil) hne
    · cases h.verifyFrom.symm.trans hnot
  | stopped hsteps hbefore hvalue hfails =>
    obtain ⟨before, tail, rfl, rfl, htail⟩ := List.map_eq_append_iff.1 hsteps
    obtain ⟨task, after, rfl, rfl, -⟩ := List.map_eq_cons_iff.1 htail
    obtain ⟨made, hfold, hmade, hfound⟩ :=
      h.split.foldlM_of_runSteps hseed htype (by rw [hbefore])
    cases hfound.symm.trans hvalue
    rw [List.length_map]
    exact .stopped rfl hfold (hfails.invoke hmade)
  | finished hrun hvalue =>
    obtain ⟨result, hfold, -, hfound⟩ :=
      h.foldlM_of_runSteps hseed htype (congrArg Prod.snd hrun)
    cases hfound.symm.trans hvalue
    exact .finished hfold

/-! ### Chains -/

/-- The plan that runs tasks one after the other. -/
def chain (first : Task) (rest : List Task) : Plan :=
  ofTypes ((first :: rest).map .generic) first.input (rest.getLastD first).output

/-- **A chain of tasks folds them over the value that it starts with.**  A value of
    another type is refused by the first step.  The attempts that are watched are those up
    to the first task that fails. -/
theorem execute_chain {first : Task} {rest : List Task}
    (h : (first :: rest).IsChain fun t u => t.output = u.input) (value : Resource) :
    (value.type ≠ first.input →
      (chain first rest).execute value =
          .error (.typeMismatch first.name first.input value.type) ∧
        ((chain first rest).observe [((chain first rest).input, value)]).1 =
          [⟨0, .generic first, some (.typeMismatch first.name first.input value.type)⟩]) ∧
    (value.type = first.input →
      (chain first rest).execute value = (first :: rest).foldlM (fun v t => t.invoke v) value ∧
        Relay (first :: rest) value
          ((chain first rest).observe [((chain first rest).input, value)])) := by
  have hleads := leads_of_isChain h
  constructor
  · intro htype
    have hrun : (Step.generic first).run 0 [(.wildcard first.input, value)] =
        .error (.typeMismatch first.name first.input value.type) :=
      Step.run_of_type_ne _ _ List.lookup_cons_self htype
    have hobserve := observe_of_first_fails (p := chain first rest) rfl hrun hleads.verifyFrom
    exact ⟨congrArg Prod.snd hobserve, congrArg Prod.fst hobserve⟩
  · intro htype
    have hrelay := hleads.relay (List.cons_ne_nil _ _) htype
    exact ⟨hrelay.snd, hrelay⟩

/-- Rewrites a paragraph: a sentence is grown, cut down again, and grown once more. -/
def rewriting : Plan :=
  chain Demo.expandParagraph [Demo.summarize, Demo.expandParagraph]

/-- The slots for any sentence and any paragraph are written again and again.  A topic is
    not rewritten. -/
theorem execute_chain_rewriting :
    rewriting.execute (.ofType "topic") =
        .error (.typeMismatch "ExpandParagraph" "sentence" "topic") ∧
      rewriting.execute ((Resource.ofType "sentence").set "text" (.text "Leeks.")) =
        .ok ((Resource.ofType "paragraph").set "text"
          (.text "Leeks. There is always more to say. Leeks.")) := by
  have hchain : List.IsChain (fun t u : Task => t.output = u.input)
      [Demo.expandParagraph, Demo.summarize, Demo.expandParagraph] := by
    simp [Demo.expandParagraph, Demo.summarize]
  constructor
  · exact ((execute_chain hchain (.ofType "topic")).1 (by decide)).1
  · have hfold := ((execute_chain hchain ((Resource.ofType "sentence").set "text" (.text "Leeks."))).2
      (by decide)).1
    refine Eq.trans hfold ?_
    rfl

end Plan

end HornPlan
