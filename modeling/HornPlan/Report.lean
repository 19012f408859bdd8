/-
  HornPlan/Report.lean
  ====================
  **Run reports.**

  A report has one record for each step of a plan, and tells how far a run came.
  The id of the run and the times come from outside (`Stamp`).

  Specification, section E.8: `RunReport`, with `finish_step`, `finalize` and
  `execute_with_report`.
-/
import HornPlan.Plan.Execution
import HornPlan.Yaml.Layout

namespace HornPlan

/-- How a whole run stands. -/
inductive Outcome where
  | pending
  | success
  | failure
deriving DecidableEq, Repr, Inhabited

def Outcome.text : Outcome → String
  | pending => "pending"
  | success => "success"
  | failure => "failure"

/-- How a single step stands. -/
inductive StepState where
  | pending
  | success
  | failed
deriving DecidableEq, Repr, Inhabited

def StepState.text : StepState → String
  | pending => "pending"
  | success => "success"
  | failed => "failed"

/-- What is told about one step. -/
structure StepRecord where
  task : String
  binding : String
  status : StepState
  wallMs : Nat
  error : Option String
deriving DecidableEq, Repr, Inhabited

/-- The id of a run, and when it took place. -/
structure Stamp where
  runId : String
  started : String
  ended : String
  totalWallMs : Nat
deriving DecidableEq, Repr, Inhabited

/-- A report on a run. -/
structure Report where
  runId : String
  label : String
  inputType : String
  outputType : String
  started : String
  ended : Option String
  outcome : Outcome
  totalWallMs : Nat
  steps : List StepRecord
deriving DecidableEq, Repr, Inhabited

namespace Report

/-- A report on a run of a plan that has not begun. -/
def pending (stamp : Stamp) (label : String) (p : Plan) : Report :=
  { runId := stamp.runId
    label
    inputType := p.inputType
    outputType := p.outputType
    started := stamp.started
    ended := none
    outcome := .pending
    totalWallMs := 0
    steps := p.steps.map fun s => ⟨s.name, s.text, .pending, 0, none⟩ }

/-- Tells how a step ended; an index beyond the last step is passed over. -/
def finishStep (r : Report) (index wallMs : Nat) (error : Option String) : Report :=
  { r with
    steps := r.steps.modify index fun s =>
      { s with status := if error.isSome then .failed else .success, wallMs, error } }

def finalize (r : Report) (stamp : Stamp) (outcome : Outcome) : Report :=
  { r with outcome, ended := some stamp.ended, totalWallMs := stamp.totalWallMs }

def completed (r : Report) : Nat := r.steps.countP fun s => s.status = .success

/-- Notes a step that was attempted; a pure step takes no time. -/
def note (r : Report) (e : Plan.Event) : Report :=
  r.finishStep e.index 0 (e.error.map Error.message)

/-- The outcome of a run with some result. -/
def outcomeOf : Except Error Resource → Outcome
  | .ok _ => .success
  | .error _ => .failure

def run (stamp : Stamp) (label : String) (p : Plan) (seed : List (Tuple × Resource)) :
    Report × Except Error Resource :=
  let (events, result) := p.observe seed
  ((events.foldl note (pending stamp label p)).finalize stamp (outcomeOf result), result)

/-! ### Texts -/

def recordValue (s : StepRecord) : Value :=
  .map ([("task", .text s.task), ("binding", .text s.binding), ("status", .text s.status.text),
      ("wall_ms", .ofNat s.wallMs)] ++
    match s.error with
    | some e => [("error", .text e)]
    | none => [])

def toValue (r : Report) : Value :=
  .map [("run_id", .text r.runId), ("label", .text r.label), ("input_type", .text r.inputType),
    ("output_type", .text r.outputType), ("started", .text r.started),
    ("ended", match r.ended with | some t => .text t | none => .null),
    ("outcome", .text r.outcome.text), ("total_wall_ms", .ofNat r.totalWallMs),
    ("steps", .list (r.steps.map recordValue))]

def yaml (r : Report) : String := Yaml.write r.toValue

def summary (r : Report) : String :=
  "| " ++ r.runId ++ " | " ++ r.label ++ " | " ++ r.inputType ++ " -> " ++ r.outputType ++ " | "
    ++ toString r.completed ++ "/" ++ toString r.steps.length ++ " | " ++ r.outcome.text ++ " |"

end Report

end HornPlan
