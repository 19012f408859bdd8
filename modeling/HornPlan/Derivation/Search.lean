/-
  HornPlan/Derivation/Search.lean
  ===============================
  **Backward chaining.**

  A goal is proved depth first: its rules are tried by rank and position, and the
  body of a rule is proved from left to right.  What has been proved is kept and
  used again (`Proven`); a failure is not kept.

  The goals that are being proved form the `path`.  A goal is put on it when it is
  entered and taken off it when it is left, and one that comes up again on its own
  path is a cycle, and no proof.  Every goal that is entered uses up one unit of
  `room`, which makes the search end and bounds the depth of the proofs it finds.

  A rule that fails does not end the proof of its goal, except when the room was
  too small.  When no rule is left, an atom that cannot be proved explains the
  failure better than a cycle does, and the first of either kind counts.

  One step is not logical.  `x_k :- x_0` asks for an `x` that is made; a proof of
  `x_0` from another instance that is held is refused (`restsOnHeld`).

  Specification, sections 4.4 and G: `Resolver`, with `prove_atom` and `derive`.
-/
import HornPlan.Derivation

namespace HornPlan

/-- Why an atom was not proved. -/
inductive Failure where
  /-- Nothing proves this atom. -/
  | underivable (a : Atom)
  /-- A goal came up again; the path leads from it back to it. -/
  | cycle (path : List Atom)
  /-- There was no room to enter this goal. -/
  | tooDeep (a : Atom)
deriving DecidableEq, Repr

namespace Derivation

/-- The proofs found so far, the latest first. -/
abbrev Proven := List (Atom × Derivation)

/-- A proof attempt: a derivation or a failure, and what the search keeps afterwards. -/
abbrev Attempt (σ α : Type) := Except Failure α × σ

/-! ### One rule -/

/-- Proves atoms from left to right, up to the first failure. -/
def proveAll {σ : Type} (prove : Atom → σ → Attempt σ Derivation) :
    List Atom → σ → Attempt σ (List Derivation)
  | [], kept => (.ok [], kept)
  | a :: rest, kept =>
    match prove a kept with
    | (.error f, kept) => (.error f, kept)
    | (.ok d, kept) =>
      match proveAll prove rest kept with
      | (.error f, kept) => (.error f, kept)
      | (.ok ds, kept) => (.ok (d :: ds), kept)

/-- Does a clause that asks for a made instance rest on one that is held? -/
def restsOnHeld (c : Clause) (children : List Derivation) : Bool :=
  (c.kind = .assignment ∨ c.kind = .completion) ∧
    (children.head?.any fun d => d.kind = .generalization)

/-! ### All rules of a goal -/

/-- What went wrong with the rules tried so far. -/
structure Setbacks where
  underivable : Option Atom
  cycle : Option (List Atom)

namespace Setbacks

def none : Setbacks := ⟨.none, .none⟩

/-- Notes an atom that cannot be proved, unless there is one. -/
def noteUnderivable (s : Setbacks) (a : Atom) : Setbacks :=
  { s with underivable := s.underivable.or (some a) }

def noteCycle (s : Setbacks) (path : List Atom) : Setbacks :=
  { s with cycle := s.cycle.or (some path) }

/-- The failure of a goal none of whose rules is left. -/
def failure (s : Setbacks) (goal : Atom) : Failure :=
  match s.underivable, s.cycle with
  | some a, _ => .underivable a
  | .none, some path => .cycle path
  | .none, .none => .underivable goal

end Setbacks

def tryRules {σ : Type} (prove : Atom → σ → Attempt σ Derivation) (goal : Atom) :
    List (Nat × Clause) → Setbacks → σ → Attempt σ Derivation
  | [], setbacks, kept => (.error (setbacks.failure goal), kept)
  | (i, c) :: rest, setbacks, kept =>
    match proveAll prove c.body kept with
    | (.error (.tooDeep a), kept) => (.error (.tooDeep a), kept)
    | (.error (.cycle path), kept) => tryRules prove goal rest (setbacks.noteCycle path) kept
    | (.error (.underivable a), kept) =>
      tryRules prove goal rest (setbacks.noteUnderivable a) kept
    | (.ok children, kept) =>
      if restsOnHeld c children then
        tryRules prove goal rest (setbacks.noteUnderivable goal) kept
      else (.ok ⟨goal, i, c.kind, children⟩, kept)

/-! ### Goals -/

/-- What a search keeps: the goals that are being proved, and the proofs found. -/
structure Memory where
  /-- The goals that are being proved, the latest first. -/
  path : List Atom
  /-- The same goals without an order. -/
  onPath : List Atom
  proven : Proven

namespace Memory

/-- Nothing is proved, and nothing is being proved. -/
def empty : Memory := ⟨[], [], []⟩

def enter (m : Memory) (goal : Atom) : Memory :=
  { m with path := goal :: m.path, onPath := m.onPath.insert goal }

def leave (m : Memory) (goal : Atom) : Memory :=
  { m with path := m.path.tail, onPath := m.onPath.erase goal }

def keep (m : Memory) (goal : Atom) (d : Derivation) : Memory :=
  { m with proven := (goal, d) :: m.proven }

end Memory

/-- The part of a path from a goal on it to its end, and the goal again.  The path
    has its latest goal first. -/
def cycleTo (goal : Atom) (path : List Atom) : List Atom :=
  goal :: (path.takeWhile (· ≠ goal)).reverse ++ [goal]

/-- Proves a goal below the goals that are being proved. -/
def prove (db : Database) : (room : Nat) → Atom → Memory → Attempt Memory Derivation
  | room, goal, m =>
    match m.proven.lookup goal with
    | some d => (.ok d, m)
    | none =>
      match db.fact? goal with
      | some i =>
        let d : Derivation := ⟨goal, i, .inputFact, []⟩
        (.ok d, m.keep goal d)
      | none =>
        if goal ∈ m.onPath then (.error (.cycle (cycleTo goal m.path)), m)
        else
          match room with
          | 0 => (.error (.tooDeep goal), m)
          | room + 1 =>
            match db.rulesFor goal with
            | [] => (.error (.underivable goal), m)
            | rules =>
              match tryRules (prove db room) goal rules .none (m.enter goal) with
              | (.ok d, m) => (.ok d, (m.leave goal).keep goal d)
              | (.error f, m) => (.error f, m.leave goal)

end Derivation

/-! ### Sessions -/

/-- A search over one database, which keeps what it has proved. -/
structure Session where
  database : Database
  /-- How many goals a path may hold. -/
  maxDepth : Nat
  memory : Derivation.Memory

namespace Session

def start (db : Database) (maxDepth : Nat) : Session := ⟨db, maxDepth, .empty⟩

/-- A failure to prove something about a tuple, as an error. -/
def surface (s : Session) (subject : Tuple) : Failure → Error
  | .underivable a => .outputUnreachable subject.text a.text
  | .cycle path => .cyclicDependency (path.map Atom.text)
  | .tooDeep a => .depthLimitExceeded a.text s.maxDepth

/-- Proves a goal that nothing depends on. -/
def prove (s : Session) (goal : Atom) : Except Failure Derivation × Session :=
  let (result, memory) := Derivation.prove s.database s.maxDepth goal s.memory
  (result, { s with memory })

/-- Proves any atom. -/
def proveAtom (s : Session) (goal : Atom) : Except Error Derivation × Session :=
  match s.prove goal with
  | (.ok d, s) => (.ok d, s)
  | (.error (.underivable _), s) => (.error (.underivableResource goal.text), s)
  | (.error f, s) => (.error (s.surface goal.subject f), s)

/-- Proves that tuples are there, one after the other, up to the first failure. -/
def deriveAll : List Tuple → Session → Except Error (List (Tuple × Derivation)) × Session
  | [], s => (.ok [], s)
  | t :: rest, s =>
    match s.prove (.resource t) with
    | (.error f, s) => (.error (s.surface t f), s)
    | (.ok d, s) =>
      match deriveAll rest s with
      | (.error e, s) => (.error e, s)
      | (.ok ds, s) => (.ok ((t, d) :: ds), s)

/-- Proves the outputs of the database in the order of their declaration. -/
def derive (s : Session) : Except Error (List (Tuple × Derivation)) × Session :=
  deriveAll s.database.outputs s

end Session

end HornPlan
