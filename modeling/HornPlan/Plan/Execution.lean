/-
  HornPlan/Plan/Execution.lean
  ============================
  **Running plans.**

  While a plan runs, every slot that is filled holds one value (`Store`).  A task
  step puts its result into its output slot; a descriptor step lays its result
  over the value that is there.  The run ends with the first step that fails.

  Specification, sections 4.5 and E.7: `execute`, `execute_seeded`, `execute_observed`
  and `run_step`.
-/
import HornPlan.Plan

namespace HornPlan

/-- Values by slot.  Of several values for one slot the first counts. -/
abbrev Store := List (Tuple × Resource)

def Store.put (store : Store) (slot : Tuple) (value : Resource) : Store := (slot, value) :: store

/-- The slots that are filled, in their order. -/
def Store.slots (store : Store) : List Tuple :=
  (store.map Prod.fst).eraseDups.mergeSort fun s t => (s.order t).isLE

/-- The result of a step, stored in its output slot. -/
def Step.keep (s : Step) (result : Resource) (store : Store) : Store :=
  match s.kind, store.lookup s.output with
  | .descriptor _, some value => store.put s.output (value.annotate result)
  | _, _ => store.put s.output result

/-- Runs one step.  The value in its input slot may be of another type than the
    task asks for, since the seed is free. -/
def Step.run (index : Nat) (s : Step) (store : Store) : Except Error Store :=
  match store.lookup s.input with
  | none => .error (Plan.missingSlot index s.name s.input [])
  | some value =>
    if value.type = s.task.input then
      match s.task.invoke value with
      | .ok result => .ok (s.keep result store)
      | .error e => .error e
    else .error (.typeMismatch s.name s.task.input value.type)

namespace Plan

/-- A step that was attempted, and how it ended. -/
structure Event where
  index : Nat
  step : Step
  error : Option Error
deriving Inhabited

/-- Runs steps one after the other, noting every attempt. -/
def runSteps : (index : Nat) → List Step → Store → List Event × Except Error Store
  | _, [], store => ([], .ok store)
  | i, s :: rest, store =>
    match s.run i store with
    | .error e => ([⟨i, s, some e⟩], .error e)
    | .ok store =>
      let (events, result) := runSteps (i + 1) rest store
      (⟨i, s, none⟩ :: events, result)

/-- Runs a plan from filled slots.  A plan without steps, or one that does not
    verify, is not run at all. -/
def observe (p : Plan) (seed : List (Tuple × Resource)) : List Event × Except Error Resource :=
  if p.isEmpty then ([], .error .emptyPlan)
  else
    match p.verifyFrom (seed.map Prod.fst) with
    | .error e => ([], .error e)
    | .ok () =>
      match runSteps 0 p.steps seed with
      | (events, .error e) => (events, .error e)
      | (events, .ok store) =>
        match store.lookup p.output with
        | some value => (events, .ok value)
        | none => (events, .error (missingSlot p.size outputName p.output store.slots))

/-- The result of a plan that starts from filled slots. -/
def executeSeeded (p : Plan) (seed : List (Tuple × Resource)) : Except Error Resource :=
  (p.observe seed).2

/-- The result of a plan that starts with a value in its input slot. -/
def execute (p : Plan) (value : Resource) : Except Error Resource :=
  p.executeSeeded [(p.input, value)]

end Plan

end HornPlan
