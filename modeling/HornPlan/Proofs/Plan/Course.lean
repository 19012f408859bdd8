/-
  HornPlan/Proofs/Plan/Course.lean
  ================================
  **A plan that verifies misses no slot when it runs.**

  Verification keeps a list of the slots that are held; a run keeps a store of values.
  The two go together: after some steps that have succeeded, the slots that hold a value
  are those that were filled at the start, and the outputs of these steps
  (`isSome_lookup_of_runSteps`).  Verification has asked for just that, so every step
  finds a value in its input slot, and fails, if at all, for the sake of its task
  (`Step.Fails`).

  A run therefore takes one of four courses (`observe_course`): there is nothing to run,
  verification refuses the plan, a step fails, or all steps succeed and the output slot
  is read.  What is said of runs here, and of the reports on them, is said course by
  course.

  Running a plan may have effects, since tasks do work and the attempts are watched.
  `observeIn` runs a plan in any monad; it shows that refusing a plan has none.

  Specification, sections 4.5 and E.7, of `execute_observed`.
-/
import HornPlan.Plan.Execution
import HornPlan.Proofs.Plan.MissingSlots
import HornPlan.Proofs.Query.Reading
import HornPlan.Proofs.Search.Memo

namespace HornPlan

/-! ### One step -/

namespace Step

variable {s : Step} {i : Nat} {store store' : Store} {value : Resource} {e : Error}

/-- How a step fails that finds a value in its input slot. -/
inductive Fails (s : Step) (value : Resource) : Error → Prop
  /-- The value is of another type than the task asks for. -/
  | input (htype : value.type ≠ s.task.input) :
    Fails s value (.typeMismatch s.name s.task.input value.type)
  /-- The task cannot do its work. -/
  | work {reason : String} (htype : value.type = s.task.input)
    (hwork : s.task.work value = .error reason) : Fails s value (.taskExecution s.name reason)
  /-- The result is of another type than the task promises. -/
  | output {result : Resource} (htype : value.type = s.task.input)
    (hwork : s.task.work value = .ok result) (hresult : result.type ≠ s.task.output) :
    Fails s value (.typeMismatch s.name s.task.output result.type)

theorem fails_of_run (hvalue : store.lookup s.input = some value)
    (h : s.run i store = .error e) : s.Fails value e := by
  unfold run at h
  rw [hvalue] at h
  by_cases htype : value.type = s.task.input
  · simp only [if_pos htype, Task.invoke] at h
    rcases hwork : s.task.work value with reason | result
    · rw [hwork] at h
      cases h
      exact .work htype hwork
    · rw [hwork] at h
      by_cases hresult : result.type = s.task.output
      · simp [hresult] at h
      · simp only [if_neg hresult] at h
        cases h
        exact .output htype hwork hresult
  · simp only [if_neg htype] at h
    cases h
    exact .input htype

theorem run_eq_ok_iff : s.run i store = .ok store' ↔ ∃ value result,
    store.lookup s.input = some value ∧ value.type = s.task.input ∧
      s.task.invoke value = .ok result ∧ store' = s.keep result store := by
  unfold run
  constructor
  · intro h
    split at h
    · cases h
    · split at h
      · split at h
        · cases h
          exact ⟨_, _, ‹_›, ‹_›, ‹_›, rfl⟩
        · cases h
      · cases h
  · rintro ⟨value, result, hvalue, htype, hinvoke, rfl⟩
    simp only [hvalue, if_pos htype, hinvoke]

theorem isSome_lookup_keep (s : Step) (result : Resource) (store : Store) (t : Tuple) :
    ((s.keep result store).lookup t).isSome ↔ (store.lookup t).isSome ∨ t = s.output := by
  have hput : ∀ value, ((store.put s.output value).lookup t).isSome ↔
      (store.lookup t).isSome ∨ t = s.output := by
    intro value
    rw [Store.put, lookup_insert]
    by_cases h : t = s.output <;> simp [h]
  unfold keep
  split <;> exact hput _

end Step

namespace Plan

variable {p : Plan} {seed : Store}

/-! ### Slots that are held, and slots that hold a value -/

/-- **The slots that hold a value are those that verification takes to be filled.** -/
theorem isSome_lookup_of_runSteps {steps : List Step} : ∀ {i : Nat} {store store' : Store},
    (runSteps i steps store).2 = .ok store' → ∀ t,
      (store'.lookup t).isSome ↔ (store.lookup t).isSome ∨ ∃ s ∈ steps, s.output = t := by
  induction steps with
  | nil =>
    rintro i store _ ⟨⟩ t
    simp
  | cons s rest ih =>
    intro i store store' h t
    rw [runSteps] at h
    rcases hrun : s.run i store with e | next
    · rw [hrun] at h
      cases h
    · rw [hrun] at h
      obtain ⟨value, result, -, -, -, rfl⟩ := Step.run_eq_ok_iff.1 hrun
      rw [ih h t, s.isSome_lookup_keep]
      simp only [List.mem_cons, exists_eq_or_imp, or_assoc, eq_comm (a := t)]

theorem filled_seed {steps : List Step} {t : Tuple} :
    Filled (seed.map Prod.fst) steps t ↔ (seed.lookup t).isSome ∨ ∃ s ∈ steps, s.output = t := by
  rw [Filled, isSome_lookup]

/-! ### How steps are run -/

def successes : (index : Nat) → List Step → List Event
  | _, [] => []
  | i, s :: rest => ⟨i, s, none⟩ :: successes (i + 1) rest

/-- A step of the plan fails, the `k` steps before it having succeeded. -/
def FailsAt (p : Plan) (seed : Store) (k : Nat) (e : Error) : Prop :=
  ∃ before s after store value, p.steps = before ++ s :: after ∧ before.length = k ∧
    runSteps 0 before seed = (successes 0 before, .ok store) ∧
      store.lookup s.input = some value ∧ s.Fails value e

/-- Steps all succeed, or they are run up to the first one that fails. -/
theorem runSteps_cases (steps : List Step) : ∀ (i : Nat) (store : Store),
    (∃ store', runSteps i steps store = (successes i steps, .ok store')) ∨
      ∃ before s after store' e, steps = before ++ s :: after ∧
        runSteps i before store = (successes i before, .ok store') ∧
          s.run (i + before.length) store' = .error e ∧
            runSteps i steps store =
              (successes i before ++ [⟨i + before.length, s, some e⟩], .error e) := by
  induction steps with
  | nil => exact fun _ store => Or.inl ⟨store, rfl⟩
  | cons s rest ih =>
    intro i store
    rcases hrun : s.run i store with e | next
    · refine Or.inr ⟨[], s, rest, store, e, rfl, rfl, hrun, ?_⟩
      rw [runSteps, hrun]
      rfl
    · rcases ih (i + 1) next with ⟨store', h⟩ | ⟨before, s', after, store', e, rfl, hbefore, hs', h⟩
      · refine Or.inl ⟨store', ?_⟩
        rw [runSteps, hrun]
        simp only [h, successes]
      · have hindex : i + 1 + before.length = i + (s :: before).length := by
          simp only [List.length_cons]
          omega
        refine Or.inr ⟨s :: before, s', after, store', e, rfl, ?_, hindex ▸ hs', ?_⟩
        · rw [runSteps, hrun]
          simp only [hbefore, successes]
        · rw [runSteps, hrun]
          simp only [h, successes, hindex, List.cons_append]

/-! ### Courses of a run -/

theorem verifyFrom_eq_error {start : List Tuple} {e : Error} (h : p.verifyFrom start = .error e) :
    ∃ index name slot held, e = missingSlot index name slot held := by
  obtain ⟨index, name, slot, -, heq⟩ := verifyFrom_eq_error_iff.1 h
  exact ⟨index, name, slot, _, heq⟩

/-- The plan is not run at all: it has no steps, or does not verify. -/
def Refuses (p : Plan) (seed : Store) (e : Error) : Prop :=
  p.steps = [] ∧ e = .emptyPlan ∨
    p.steps ≠ [] ∧ p.verifyFrom (seed.map Prod.fst) = .error e

/-- The courses that a run can take, with what is watched and how it ends. -/
inductive Course (p : Plan) (seed : Store) : List Event × Except Error Resource → Prop
  | refused {e : Error} (hrefuses : p.Refuses seed e) : Course p seed ([], .error e)
  | stopped {before after : List Step} {s : Step} {store : Store} {value : Resource} {e : Error}
    (hsteps : p.steps = before ++ s :: after)
    (hbefore : runSteps 0 before seed = (successes 0 before, .ok store))
    (hvalue : store.lookup s.input = some value) (hfails : s.Fails value e) :
    Course p seed (successes 0 before ++ [⟨before.length, s, some e⟩], .error e)
  | finished {store : Store} {value : Resource}
    (hrun : runSteps 0 p.steps seed = (successes 0 p.steps, .ok store))
    (hvalue : store.lookup p.output = some value) : Course p seed (successes 0 p.steps, .ok value)

section Verified

variable (hverify : p.verifyFrom (seed.map Prod.fst) = .ok ())
include hverify

theorem isSome_lookup_input {before after : List Step} {s : Step} {store : Store}
    (hsteps : p.steps = before ++ s :: after) (hbefore : (runSteps 0 before seed).2 = .ok store) :
    (store.lookup s.input).isSome :=
  (isSome_lookup_of_runSteps hbefore _).2
    (filled_seed.1 ((verifyFrom_eq_ok.1 hverify).1 before s after hsteps))

theorem isSome_lookup_output {store : Store} (hrun : (runSteps 0 p.steps seed).2 = .ok store) :
    (store.lookup p.output).isSome :=
  (isSome_lookup_of_runSteps hrun _).2 (filled_seed.1 (verifyFrom_eq_ok.1 hverify).2)

end Verified

theorem observe_of_refuses {e : Error} (h : p.Refuses seed e) :
    p.observe seed = ([], .error e) := by
  rcases h with ⟨hsteps, rfl⟩ | ⟨hsteps, hverify⟩
  · simp [observe, isEmpty, hsteps]
  · simp [observe, isEmpty, hsteps, hverify]

theorem refuses_or_verifies (p : Plan) (seed : Store) : (∃ e, p.Refuses seed e) ∨
    p.isEmpty = false ∧ p.verifyFrom (seed.map Prod.fst) = .ok () := by
  by_cases hsteps : p.steps = []
  · exact Or.inl ⟨_, Or.inl ⟨hsteps, rfl⟩⟩
  · rcases hverify : p.verifyFrom (seed.map Prod.fst) with e | ⟨⟩
    · exact Or.inl ⟨e, Or.inr ⟨hsteps, hverify⟩⟩
    · exact Or.inr ⟨by simp [isEmpty, hsteps], rfl⟩

/-- **Every run takes one of the courses.** -/
theorem observe_course (p : Plan) (seed : Store) : p.Course seed (p.observe seed) := by
  rcases p.refuses_or_verifies seed with ⟨e, hrefuses⟩ | ⟨hempty, hverify⟩
  · rw [observe_of_refuses hrefuses]
    exact .refused hrefuses
  · simp only [observe, hempty, hverify]
    rcases runSteps_cases p.steps 0 seed with
      ⟨store, hrun⟩ | ⟨before, s, after, store, e, hsplit, hbefore, hs, hrun⟩
    · -- verification has seen to it that the output slot is filled, and so below for inputs
      have hout := isSome_lookup_output hverify (by rw [hrun])
      obtain ⟨value, hvalue⟩ := Option.isSome_iff_exists.1 hout
      rw [hrun]
      simp only [hvalue]
      exact .finished hrun hvalue
    · have hin := isSome_lookup_input hverify hsplit (by rw [hbefore])
      obtain ⟨value, hvalue⟩ := Option.isSome_iff_exists.1 hin
      rw [hrun]
      simp only [Nat.zero_add] at hs ⊢
      exact .stopped hsplit hbefore hvalue (Step.fails_of_run hvalue hs)

/-! ### Runs with effects -/

section Effects

variable {m : Type → Type} [Monad m] (invoke : Task → Resource → m (Except Error Resource))
  (tell : Event → m Unit)

/-- Runs one step; having its task invoked may have effects. -/
def stepIn (index : Nat) (s : Step) (store : Store) : m (Except Error Store) :=
  match store.lookup s.input with
  | none => pure (.error (missingSlot index s.name s.input []))
  | some value =>
    if value.type = s.task.input then do
      match ← invoke s.task value with
      | .ok result => pure (.ok (s.keep result store))
      | .error e => pure (.error e)
    else pure (.error (.typeMismatch s.name s.task.input value.type))

/-- Runs steps one after the other and tells of every attempt when it is over. -/
def stepsIn : (index : Nat) → List Step → Store → m (Except Error Store)
  | _, [], store => pure (.ok store)
  | i, s :: rest, store => do
    match ← stepIn invoke i s store with
    | .error e => do
      tell ⟨i, s, some e⟩
      pure (.error e)
    | .ok next => do
      tell ⟨i, s, none⟩
      stepsIn (i + 1) rest next

def observeIn (p : Plan) (seed : Store) : m (Except Error Resource) :=
  if p.isEmpty then pure (.error .emptyPlan)
  else
    match p.verifyFrom (seed.map Prod.fst) with
    | .error e => pure (.error e)
    | .ok () => do
      match ← stepsIn invoke tell 0 p.steps seed with
      | .error e => pure (.error e)
      | .ok store =>
        match store.lookup p.output with
        | some value => pure (.ok value)
        | none => pure (.error (missingSlot p.size outputName p.output store.slots))

/-- **Refusing a plan has no effects**: no task is invoked, and nothing is told. -/
theorem observeIn_of_refuses {e : Error} (h : p.Refuses seed e) :
    p.observeIn invoke tell seed = pure (.error e) := by
  rcases h with ⟨hsteps, rfl⟩ | ⟨hsteps, hverify⟩
  · simp [observeIn, isEmpty, hsteps]
  · simp [observeIn, isEmpty, hsteps, hverify]

theorem stepIn_pure [LawfulMonad m] (i : Nat) (s : Step) (store : Store) :
    stepIn (fun t v => (pure (t.invoke v) : m (Except Error Resource))) i s store =
      pure (s.run i store) := by
  unfold stepIn Step.run
  rcases store.lookup s.input with _ | value
  · rfl
  · by_cases htype : value.type = s.task.input
    · simp only [if_pos htype, pure_bind]
      rcases s.task.invoke value with e | result <;> rfl
    · simp only [if_neg htype]

end Effects

def writeDown (e : Event) : StateM (List Event) Unit := modify (· ++ [e])

theorem stepsIn_writeDown (steps : List Step) : ∀ (i : Nat) (store : Store) (told : List Event),
    stepsIn (fun t v => pure (t.invoke v)) writeDown i steps store told =
      ((runSteps i steps store).2, told ++ (runSteps i steps store).1) := by
  induction steps with
  | nil =>
    intro i store told
    simp only [runSteps, List.append_nil]
    rfl
  | cons s rest ih =>
    intro i store told
    rw [stepsIn, stepIn_pure, pure_bind, runSteps]
    rcases s.run i store with e | next
    · rfl
    · have h := ih (i + 1) next (told ++ [⟨i, s, none⟩])
      rw [List.append_assoc] at h
      exact h

/-- **With tasks that only compute, and attempts that are only written down, a run is as
    it is without effects.** -/
theorem observeIn_writeDown (p : Plan) (seed : Store) (told : List Event) :
    p.observeIn (fun t v => pure (t.invoke v)) writeDown seed told =
      ((p.observe seed).2, told ++ (p.observe seed).1) := by
  rcases p.refuses_or_verifies seed with ⟨e, hrefuses⟩ | ⟨hempty, hverify⟩
  · rw [observeIn_of_refuses _ _ hrefuses, observe_of_refuses hrefuses, List.append_nil]
    rfl
  · have hsteps := stepsIn_writeDown p.steps 0 seed told
    simp only [observeIn, observe, hempty, hverify, Bool.false_eq_true, if_false, bind, StateT.bind,
      hsteps]
    rcases runSteps 0 p.steps seed with ⟨events, e | store⟩
    · rfl
    · dsimp only
      rcases store.lookup p.output with _ | value <;> rfl

/-! ### What verification promises -/

/-- Does a run of the plan find every slot filled that it reads? -/
structure MissesNoSlot (p : Plan) (seed : Store) : Prop where
  /-- A step that is reached finds a value in its input slot. -/
  input : ∀ before s after store, p.steps = before ++ s :: after →
    (runSteps 0 before seed).2 = .ok store → (store.lookup s.input).isSome
  /-- After all steps there is a value in the output slot. -/
  output : ∀ store, (runSteps 0 p.steps seed).2 = .ok store → (store.lookup p.output).isSome
  /-- So what fails is a step, for the sake of its task. -/
  error : ∀ e, (p.observe seed).2 = .error e → ∃ k, p.FailsAt seed k e
  noMismatch : ∀ index name expected found,
    (p.observe seed).2 ≠ .error (.planTypeMismatch index name expected found)

theorem FailsAt.ne_planTypeMismatch {k : Nat} {e : Error} (h : p.FailsAt seed k e) (index : Nat)
    (name expected found : String) : e ≠ .planTypeMismatch index name expected found := by
  obtain ⟨before, s, after, store, value, -, -, -, -, hfails⟩ := h
  cases hfails <;> exact nofun

theorem refuses_or_failsAt {e : Error} (h : (p.observe seed).2 = .error e) :
    p.Refuses seed e ∨ ∃ k, p.FailsAt seed k e := by
  have hcourse := p.observe_course seed
  generalize p.observe seed = outcome at h hcourse
  cases hcourse with
  | refused hrefuses =>
    cases h
    exact Or.inl hrefuses
  | stopped hsteps hbefore hvalue hfails =>
    cases h
    exact Or.inr ⟨_, _, _, _, _, _, hsteps, rfl, hbefore, hvalue, hfails⟩
  | finished => cases h

theorem missesNoSlot (hsteps : p.steps ≠ [])
    (hverify : p.verifyFrom (seed.map Prod.fst) = .ok ()) : p.MissesNoSlot seed := by
  have herror : ∀ e, (p.observe seed).2 = .error e → ∃ k, p.FailsAt seed k e := by
    intro e h
    rcases refuses_or_failsAt h with (⟨hnil, -⟩ | ⟨-, hnot⟩) | hfails
    · exact absurd hnil hsteps
    · cases hverify.symm.trans hnot
    · exact hfails
  constructor
  · intro before s after store hsplit hbefore
    exact isSome_lookup_input hverify hsplit hbefore
  · exact fun store => isSome_lookup_output hverify
  · exact herror
  · intro index name expected found h
    obtain ⟨k, hfails⟩ := herror _ h
    exact hfails.ne_planTypeMismatch _ _ _ _ rfl

/-- **Which slots are missing is decided before anything runs.**  A plan without steps is
    refused as such; one that does not verify is refused with the error of verification,
    and to refuse it has no effects; one that verifies misses no slot. -/
theorem slots_decided_before_run (p : Plan) (seed : Store) :
    ((p.observe seed).2 = .error .emptyPlan ↔ p.steps = []) ∧
      (∀ e, p.steps ≠ [] → p.verifyFrom (seed.map Prod.fst) = .error e →
        p.observe seed = ([], .error e) ∧
          ∀ (m : Type → Type) [Monad m] (invoke : Task → Resource → m (Except Error Resource))
            (tell : Event → m Unit), p.observeIn invoke tell seed = pure (.error e)) ∧
      (p.steps ≠ [] → p.verifyFrom (seed.map Prod.fst) = .ok () → p.MissesNoSlot seed) := by
  refine ⟨⟨?_, ?_⟩, ?_, missesNoSlot⟩
  · intro h
    rcases refuses_or_failsAt h with
      (⟨hnil, -⟩ | ⟨-, hnot⟩) | ⟨k, before, s, after, store, value, hfails⟩
    · exact hnil
    · obtain ⟨index, name, slot, held, heq⟩ := verifyFrom_eq_error hnot
      cases heq
    · cases hfails.2.2.2.2
  · intro hnil
    rw [observe_of_refuses (Or.inl ⟨hnil, rfl⟩)]
  · intro e hsteps hnot
    have hrefuses : p.Refuses seed e := Or.inr ⟨hsteps, hnot⟩
    refine ⟨observe_of_refuses hrefuses, ?_⟩
    intro m _ invoke tell
    exact observeIn_of_refuses invoke tell hrefuses

/-- Names a recipe after `topic_2`; the task that does so has run out of names. -/
def soup : Plan :=
  let recipe := Query.instanceOf "recipe" 3
  let nameDish : Task := ⟨"NameDish", "", "topic", "recipe", fun _ => .error "no names left"⟩
  ⟨[.ofDescriptor ⟨"title", nameDish⟩ (Query.instanceOf "topic" 2) recipe],
    Query.instanceOf "topic" 1, recipe⟩

/-- The soup is refused if only `topic_1` is there.  From `topic_2` it is begun, and its
    step fails. -/
theorem slots_decided_before_run_soup :
    soup.observe [(Query.instanceOf "topic" 1, .ofType "topic")] =
        ([], .error (.planTypeMismatch 0 "NameDish" "topic_2" "topic_1")) ∧
      ∃ k, soup.FailsAt [(Query.instanceOf "topic" 2, .ofType "topic")] k
        (.taskExecution "NameDish" "no names left") := by
  constructor
  · obtain ⟨-, hrefused, -⟩ :=
      slots_decided_before_run soup [(Query.instanceOf "topic" 1, .ofType "topic")]
    exact (hrefused _ (List.cons_ne_nil _ _) rfl).1
  · obtain ⟨-, -, hruns⟩ :=
      slots_decided_before_run soup [(Query.instanceOf "topic" 2, .ofType "topic")]
    exact (hruns (List.cons_ne_nil _ _) rfl).error _ rfl

end Plan

end HornPlan
