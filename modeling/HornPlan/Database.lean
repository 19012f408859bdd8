/-
  HornPlan/Database.lean
  ======================
  **Clause databases.**

  A database is what a query compiles to: clauses, no two of them the same, the
  values of the inputs, and the outputs that are to be proved.

  Specification, sections 3 and E.3: `QueryPlan`, with `push`, `count`, `seed`,
  `clause_set` and `to_program`.
-/
import HornPlan.Clause

namespace HornPlan

structure Database where
  clauses : List Clause
  /-- The inputs in the order of their declaration. -/
  inputs : List (Tuple × Resource)
  outputs : List Tuple
deriving Inhabited

namespace Database

def empty : Database := ⟨[], [], []⟩

/-- Is there a clause with the same head and body? -/
def contains (db : Database) (c : Clause) : Bool := db.clauses.any fun d => d.key = c.key

/-- Adds a clause unless the same clause is there.  No set of keys is kept beside the
    clauses: whether the clause is there is read off the clauses themselves. -/
def push (db : Database) (c : Clause) : Database :=
  if db.contains c then db else { db with clauses := db.clauses ++ [c] }

def pushAll (db : Database) (cs : List Clause) : Database := cs.foldl push db

def size (db : Database) : Nat := db.clauses.length

def count (db : Database) (kind : ClauseKind) : Nat := db.clauses.countP fun c => c.kind = kind

/-- The values an execution starts from. -/
def seed (db : Database) : List (Tuple × Resource) := db.inputs

/-- Inserts a text into a sorted list of different texts. -/
def insertSorted (s : String) : List String → List String
  | [] => [s]
  | t :: rest =>
    if s = t then t :: rest
    else if s < t then s :: t :: rest
    else t :: insertSorted s rest

/-- The texts of the clauses, sorted and without repetition. -/
def clauseSet (db : Database) : List String :=
  db.clauses.foldr (fun c set => insertSorted c.text set) []

/-- The program lines of clauses, given the kind of the clause before: a run of
    clauses of one kind stands under a heading, runs are separated by an empty line. -/
def programLines : Option ClauseKind → List Clause → List String
  | _, [] => []
  | before, c :: rest =>
    let heading := "% " ++ c.kind.text
    let intro :=
      match before with
      | none => [heading]
      | some k => if k = c.kind then [] else ["", heading]
    intro ++ c.text :: programLines (some c.kind) rest

def program (db : Database) : String := String.join ((programLines none db.clauses).map (· ++ "\n"))

/-! ### Looking clauses up -/

/-- The position of the first fact that states an atom. -/
def fact? (db : Database) (a : Atom) : Option Nat :=
  db.clauses.findIdx? fun c => c.kind = .inputFact ∧ c.head = a

/-- The rules for an atom among clauses, with their positions; the first clause
    stands at `position`. -/
def rulesAmong (a : Atom) : (position : Nat) → List Clause → List (Nat × Clause)
  | _, [] => []
  | i, c :: rest =>
    if c.kind ≠ .inputFact ∧ c.head = a then (i, c) :: rulesAmong a (i + 1) rest
    else rulesAmong a (i + 1) rest

/-- The rules for an atom, with their positions: by rank, then by position. -/
def rulesFor (db : Database) (a : Atom) : List (Nat × Clause) :=
  let rules := rulesAmong a 0 db.clauses
  (List.range 5).flatMap fun rank => rules.filter fun r => r.2.kind.rank = rank

end Database

end HornPlan
