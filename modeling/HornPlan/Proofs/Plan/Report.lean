/-
  HornPlan/Proofs/Plan/Report.lean
  ================================
  **A report tells how far a run has come.**

  A report begins with a record of every step, all of them pending, and is filled in
  while the plan runs: each attempt that is told changes the record of its step
  (`note_steps`).  So after some steps that have succeeded their records say so, and the
  records behind them are as they were (`foldl_successes`).

  What a report says in the end therefore follows the course of the run
  (`Plan.Course`), which also gives the result (`run_tells`).

  Specification, section E.8, of `execute_with_report`.
-/
import HornPlan.Proofs.Plan.Course
import HornPlan.Report

namespace HornPlan

namespace Report

variable {r : Report} {p : Plan} {seed : Store}

/-! ### Records -/

/-- The record of a step that stands in some way. -/
def recordOf (status : StepState) (error : Option String) (s : Step) : StepRecord :=
  ⟨s.name, s.text, status, 0, error⟩

/-- The record of a step, given the error with which its attempt ended. -/
def recordAfter (error : Option Error) : Step → StepRecord :=
  recordOf (if error.isSome then .failed else .success) (error.map Error.message)

theorem recordOf_stands {status : StepState} {error : Option String} {steps : List Step} :
    ∀ c ∈ steps.map (recordOf status error), c.status = status ∧ c.error = error := by
  intro c hc
  obtain ⟨s, -, rfl⟩ := List.mem_map.1 hc
  exact ⟨rfl, rfl⟩

theorem map_shown (status : StepState) (error : Option String) (steps : List Step) :
    (steps.map (recordOf status error)).map (fun c => (c.task, c.binding)) =
      steps.map fun s => (s.name, s.text) := by
  rw [List.map_map]
  rfl

theorem countP_success (status : StepState) (error : Option String) (steps : List Step) :
    (steps.map (recordOf status error)).countP (fun c => c.status = .success) =
      if status = .success then steps.length else 0 := by
  rw [List.countP_map]
  by_cases h : status = .success <;> simp [recordOf, Function.comp_def, h]

theorem modify_length_append {α : Type} (f : α → α) (a : α) (l rest : List α) :
    (l ++ a :: rest).modify l.length f = l ++ f a :: rest := by
  induction l with
  | nil => simp
  | cons b l ih => simp [ih]

/-- An attempt changes the record of its step. -/
theorem note_steps (told rest : List StepRecord) (s : Step) (error : Option Error)
    (h : r.steps = told ++ recordOf .pending none s :: rest) :
    (r.note ⟨told.length, s, error⟩).steps = told ++ recordAfter error s :: rest := by
  simp only [note, finishStep, h, modify_length_append, Option.isSome_map]
  rfl

/-- Attempts that succeed change the records of their steps, one after the other. -/
theorem foldl_successes (before : List Step) : ∀ (r : Report) (told rest : List StepRecord),
    r.steps = told ++ before.map (recordOf .pending none) ++ rest →
      ((Plan.successes told.length before).foldl note r).steps =
        told ++ before.map (recordOf .success none) ++ rest := by
  induction before with
  | nil => exact fun _ _ _ h => h
  | cons s before ih =>
    intro r told rest h
    have hnote : (r.note ⟨told.length, s, none⟩).steps =
        told ++ recordAfter none s :: (before.map (recordOf .pending none) ++ rest) := by
      apply note_steps
      simpa using h
    have hrest := ih (r.note ⟨told.length, s, none⟩) (told ++ [recordAfter none s]) rest
      (by rw [hnote]; simp)
    rw [List.length_append] at hrest
    simpa [Plan.successes, recordAfter] using hrest

/-! ### After a run -/

theorem steps_of_stopped {before after : List Step} {s : Step} (stamp : Stamp) (label : String)
    (e : Error) (hsplit : p.steps = before ++ s :: after) :
    ((Plan.successes 0 before ++ [Plan.Event.mk before.length s (some e)]).foldl note
        (pending stamp label p)).steps =
      before.map (recordOf .success none) ++ recordAfter (some e) s ::
        after.map (recordOf .pending none) := by
  have htold := foldl_successes before (pending stamp label p) []
    ((s :: after).map (recordOf .pending none)) (by
      rw [List.nil_append, ← List.map_append, ← hsplit]
      rfl)
  have hnote := note_steps (before.map (recordOf .success none)) _ s (some e) htold
  rw [List.length_map] at hnote
  rw [List.foldl_append]
  exact hnote

theorem steps_of_finished (stamp : Stamp) (label : String) (p : Plan) :
    ((Plan.successes 0 p.steps).foldl note (pending stamp label p)).steps =
      p.steps.map (recordOf .success none) := by
  have htold := foldl_successes p.steps (pending stamp label p) [] [] (by
    rw [List.append_nil]
    rfl)
  rwa [List.append_nil] at htold

/-! ### What a report tells -/

/-- How the report on a run ends, `k` steps having succeeded. -/
inductive Ending (p : Plan) (seed : Store) (r : Report) : Nat → Except Error Resource → Prop
  /-- All steps have succeeded. -/
  | succeeded {value : Resource} (houtcome : r.outcome = .success) :
    Ending p seed r p.size (.ok value)
  /-- The step at `k` has failed, and none behind it has been attempted. -/
  | failed {k : Nat} {e : Error} {c : StepRecord} (hfails : p.FailsAt seed k e)
    (hrecord : r.steps[k]? = some c) (hstatus : c.status = .failed)
    (herror : c.error = some e.message)
    (hlater : ∀ d ∈ r.steps.drop (k + 1), d.status = .pending ∧ d.error = none)
    (houtcome : r.outcome = .failure) : Ending p seed r k (.error e)
  /-- The plan has not been run. -/
  | refused {e : Error} (hrefuses : p.Refuses seed e)
    (hall : ∀ d ∈ r.steps, d.status = .pending ∧ d.error = none)
    (houtcome : r.outcome = .failure) : Ending p seed r 0 (.error e)

/-- Does a report tell of a run with some result in which `k` steps have succeeded? -/
structure Tells (p : Plan) (seed : Store) (r : Report) (result : Except Error Resource)
    (k : Nat) : Prop where
  listed : r.steps.map (fun c => (c.task, c.binding)) = p.steps.map fun s => (s.name, s.text)
  succeeded : ∀ c ∈ r.steps.take k, c.status = .success ∧ c.error = none
  ending : Ending p seed r k result
  completed_eq : r.completed = k
  ended : r.outcome ≠ .pending

theorem tells_of_refused {e : Error} (hrefuses : p.Refuses seed e)
    (hsteps : r.steps = p.steps.map (recordOf .pending none)) (houtcome : r.outcome = .failure) :
    Tells p seed r (.error e) 0 := by
  constructor
  · rw [hsteps, map_shown]
  · simp
  · exact .refused hrefuses (hsteps ▸ recordOf_stands) houtcome
  · rw [completed, hsteps, countP_success, if_neg nofun]
  · simp [houtcome]

theorem tells_of_stopped {before after : List Step} {s : Step} {e : Error}
    (hsplit : p.steps = before ++ s :: after) (hfails : p.FailsAt seed before.length e)
    (hsteps : r.steps = before.map (recordOf .success none) ++ recordAfter (some e) s ::
      after.map (recordOf .pending none)) (houtcome : r.outcome = .failure) :
    Tells p seed r (.error e) before.length := by
  have hlength : (before.map (recordOf .success none)).length = before.length := List.length_map _
  constructor
  · rw [hsteps, List.map_append, List.map_cons, map_shown, map_shown, hsplit]
    simp [recordAfter, recordOf]
  · rw [hsteps, List.take_left' hlength]
    exact recordOf_stands
  · refine .failed hfails (c := recordAfter (some e) s) ?_ rfl rfl ?_ houtcome
    · simp [hsteps]
    · rw [hsteps, ← List.drop_drop, List.drop_left' hlength]
      exact recordOf_stands
  · rw [completed, hsteps, List.countP_append, List.countP_cons, countP_success, countP_success]
    simp [recordAfter, recordOf]
  · simp [houtcome]

theorem tells_of_finished {value : Resource}
    (hsteps : r.steps = p.steps.map (recordOf .success none)) (houtcome : r.outcome = .success) :
    Tells p seed r (.ok value) p.size := by
  constructor
  · rw [hsteps, map_shown]
  · intro c hc
    exact recordOf_stands c (hsteps ▸ List.mem_of_mem_take hc)
  · exact .succeeded houtcome
  · rw [completed, hsteps, countP_success, if_pos rfl]
    rfl
  · simp [houtcome]

/-- **A report tells exactly what has happened.**  It has a record of every step in
    order.  The first `k` are successes; how the others stand, and what the outcome is,
    agrees with the result of the run. -/
theorem run_tells (stamp : Stamp) (label : String) (p : Plan) (seed : Store) :
    (run stamp label p seed).2 = p.executeSeeded seed ∧
      ∃ k, Tells p seed (run stamp label p seed).1 (run stamp label p seed).2 k := by
  refine ⟨rfl, ?_⟩
  have hcourse := p.observe_course seed
  unfold run
  generalize p.observe seed = outcome at hcourse
  cases hcourse with
  | refused hrefuses => exact ⟨0, tells_of_refused hrefuses rfl rfl⟩
  | @stopped before after s store value e hsplit hbefore hvalue hfails =>
    have hat : p.FailsAt seed before.length e :=
      ⟨before, s, after, store, value, hsplit, rfl, hbefore, hvalue, hfails⟩
    have hsteps := steps_of_stopped stamp label e hsplit
    exact ⟨before.length, tells_of_stopped hsplit hat hsteps rfl⟩
  | finished hrun hvalue =>
    exact ⟨p.size, tells_of_finished (steps_of_finished stamp label p) rfl⟩

end Report

end HornPlan
