/-
  HornPlan/Plan.lean
  ==================
  **Plans.**

  A plan is a list of bound steps, the slot that a single value starts in, and the
  slot that the result is read from.  A slot is a tuple that holds a value while
  the plan runs.  `verifyFrom` checks, before anything runs, that every step finds
  its input slot filled and that the output slot is filled at the end.

  Specification, sections 3, 4.5 and E.7: `Plan`, with `verify` and `verify_from`.
-/
import HornPlan.Catalog

namespace HornPlan

structure Plan where
  steps : List Step
  input : Tuple
  output : Tuple
deriving Inhabited

namespace Plan

/-- A plan between wildcard slots of two types. -/
def ofTypes (steps : List Step) (input output : String) : Plan :=
  ⟨steps, .wildcard input, .wildcard output⟩

def inputType (p : Plan) : String := p.input.type

def outputType (p : Plan) : String := p.output.type

def size (p : Plan) : Nat := p.steps.length

def isEmpty (p : Plan) : Bool := p.steps.isEmpty

def taskNames (p : Plan) : List String := p.steps.map Step.name

/-- A line for each step, with its number. -/
def stepLines : (number : Nat) → List Step → List String
  | _, [] => []
  | n, s :: rest => ("  " ++ toString n ++ ". " ++ s.text ++ "\n") :: stepLines (n + 1) rest

def text (p : Plan) : String :=
  "plan: " ++ p.inputType ++ " -> " ++ p.outputType ++ "\n" ++ String.join (stepLines 1 p.steps)

/-! ### Verification -/

/-- Adds a slot to a list of different slots. -/
def hold (held : List Tuple) (t : Tuple) : List Tuple := if t ∈ held then held else held ++ [t]

def describeHeld (held : List Tuple) : String :=
  if held.isEmpty then "nothing" else ", ".intercalate (held.map Tuple.text)

/-- The error of a step that asks for a slot that is not held. -/
def missingSlot (index : Nat) (name : String) (slot : Tuple) (held : List Tuple) : Error :=
  .planTypeMismatch index name slot.text (describeHeld held)

/-- What stands for a step when the output slot is asked for at the end. -/
def outputName : String := "<output>"

/-- Runs through the steps with the slots that are held, and ends with the slots
    held after the last one. -/
def verifySteps : (index : Nat) → List Step → (held : List Tuple) → Except Error (List Tuple)
  | _, [], held => .ok held
  | i, s :: rest, held =>
    if s.input ∈ held then verifySteps (i + 1) rest (hold held s.output)
    else .error (missingSlot i s.name s.input held)

/-- Can the plan run when some slots are filled at the start? -/
def verifyFrom (p : Plan) (filled : List Tuple) : Except Error Unit :=
  match verifySteps 0 p.steps (filled.foldl hold []) with
  | .error e => .error e
  | .ok held =>
    if p.output ∈ held then .ok () else .error (missingSlot p.size outputName p.output held)

/-- Can the plan run when its input slot holds a value of a type at the start? -/
def verify (p : Plan) (type : String) : Except Error Unit := p.verifyFrom [⟨type, p.input.id⟩]

end Plan

end HornPlan
