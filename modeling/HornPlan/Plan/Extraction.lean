/-
  HornPlan/Plan/Extraction.lean
  =============================
  **Plans from proofs.**

  A plan is read off the proofs of the outputs in one walk, children before their
  parent.  A clause that is used several times contributes its step once.

  At run time a proved tuple need not have a slot of its own: `x_0` that is proved
  by `x_0 :- x_k` lives where `x_k` does, and so does `x_k` proved by `x_k :- x_0`.
  The walk keeps the slot of every tuple, and binds the input of a step to the
  slot in which the value will be found.

  Specification, sections 4.4 (linearization), E.7 and G: `linearize`.
-/
import HornPlan.Derivation.Search
import HornPlan.Plan

namespace HornPlan

namespace Plan

/-- What a walk has found so far. -/
structure Walk where
  steps : List Step
  /-- The clauses whose steps have been taken. -/
  taken : List Nat
  /-- The slots of the tuples proved so far, the latest first. -/
  slots : List (Tuple × Tuple)
  /-- The first input that a proof used. -/
  firstInput : Option Tuple

namespace Walk

def start : Walk := ⟨[], [], [], none⟩

/-- The slot of a tuple; one that has not been proved has its own. -/
def slot (w : Walk) (t : Tuple) : Tuple := (w.slots.lookup t).getD t

/-- The slot of a tuple that a clause of some kind proves, given the atom that the
    first child of the proof proves. -/
def slotOf (w : Walk) (t : Tuple) (kind : ClauseKind) (first : Option Atom) : Tuple :=
  match kind, first with
  | .generalization, some (.resource s) | .assignment, some (.resource s)
  | .completion, some (.resource s) => w.slot s
  | _, _ => t

def note (w : Walk) (atom : Atom) (kind : ClauseKind) (first : Option Atom) : Walk :=
  match atom with
  | .resource t =>
    { w with
      slots := (t, w.slotOf t kind first) :: w.slots
      firstInput := w.firstInput.or (if kind = .inputFact then some t else none) }
  | _ => w

/-- Takes the step of a clause, unless it has been taken. -/
def take (w : Walk) (clause : Nat) (step : Option Step) : Walk :=
  match step with
  | some s =>
    if clause ∈ w.taken then w
    else
      { w with
        steps := w.steps ++ [{ s with input := w.slot s.input }]
        taken := clause :: w.taken }
  | none => w

mutual

def visit (db : Database) : Derivation → Walk → Walk
  | ⟨atom, clause, kind, children⟩, w =>
    ((visitAll db children w).note atom kind (children.head?.map Derivation.atom)).take clause
      (db.clauses[clause]?.bind Clause.step)

def visitAll (db : Database) : List Derivation → Walk → Walk
  | [], w => w
  | d :: rest, w => visitAll db rest (visit db d w)

end

end Walk

/-- The plan of some proofs.  Its result is what the last of them proves. -/
def ofDerivations (db : Database) (derivations : List (Tuple × Derivation)) : Except Error Plan :=
  let w := Walk.visitAll db (derivations.map Prod.snd) .start
  match derivations.getLast? with
  | none => .error .emptyPlan
  | some (last, _) =>
    let output := w.slot last
    .ok ⟨w.steps, w.firstInput.getD output, output⟩

end Plan

/-- Proves the outputs and makes a plan of the proofs. -/
def Session.resolve (s : Session) : Except Error Plan × Session :=
  match s.derive with
  | (.error e, s) => (.error e, s)
  | (.ok derivations, s) => (Plan.ofDerivations s.database derivations, s)

end HornPlan
