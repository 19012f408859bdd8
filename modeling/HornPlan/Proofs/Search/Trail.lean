/-
  HornPlan/Proofs/Search/Trail.lean
  =================================
  **The search leaves its path as it found it.**

  `Derivation.prove` keeps the path of the goals that are being proved in its
  memory: it puts a goal on it, tries the rules, and takes the goal off again on
  every way out.  `search` is the same search with the path as an argument, and
  nothing but proofs in its memory.

  `prove_eq_search` says that the two agree: from a memory whose two records of the
  path tell the same goals (`Memory.Consistent`), `prove` yields what `search`
  yields, keeps the proofs that `search` keeps, and leaves the path alone.
-/
import HornPlan.Derivation.Search

namespace HornPlan.Derivation

/-! ### The search with its path as an argument -/

/-- Proves a goal below the goals of `path`, the latest of which comes first. -/
def search (db : Database) :
    (room : Nat) → (path : List Atom) → Atom → Proven → Attempt Proven Derivation
  | room, path, goal, proven =>
    match proven.lookup goal with
    | some d => (.ok d, proven)
    | none =>
      match db.fact? goal with
      | some i => (.ok ⟨goal, i, .inputFact, []⟩, (goal, ⟨goal, i, .inputFact, []⟩) :: proven)
      | none =>
        if goal ∈ path then (.error (.cycle (cycleTo goal path)), proven)
        else
          match room with
          | 0 => (.error (.tooDeep goal), proven)
          | room + 1 =>
            match tryRules (search db room (goal :: path)) goal (db.rulesFor goal) .none proven with
            | (.ok d, proven) => (.ok d, (goal, d) :: proven)
            | (.error f, proven) => (.error f, proven)

/-- The ways in which a search for one goal ends. -/
theorem search_cases {db : Database} {room : Nat} {path : List Atom} {goal : Atom} {proven : Proven}
    {motive : Attempt Proven Derivation → Prop}
    (known : ∀ d, proven.lookup goal = some d → motive (.ok d, proven))
    (fact : ∀ i, proven.lookup goal = none → db.fact? goal = some i →
      motive (.ok ⟨goal, i, .inputFact, []⟩, (goal, ⟨goal, i, .inputFact, []⟩) :: proven))
    (cycle : proven.lookup goal = none → db.fact? goal = none → goal ∈ path →
      motive (.error (.cycle (cycleTo goal path)), proven))
    (full : proven.lookup goal = none → db.fact? goal = none → goal ∉ path → room = 0 →
      motive (.error (.tooDeep goal), proven))
    (proved : ∀ r d q, proven.lookup goal = none → db.fact? goal = none → goal ∉ path →
      room = r + 1 →
      tryRules (search db r (goal :: path)) goal (db.rulesFor goal) .none proven = (.ok d, q) →
      motive (.ok d, (goal, d) :: q))
    (failed : ∀ r f q, proven.lookup goal = none → db.fact? goal = none → goal ∉ path →
      room = r + 1 →
      tryRules (search db r (goal :: path)) goal (db.rulesFor goal) .none proven = (.error f, q) →
      motive (.error f, q)) :
    motive (search db room path goal proven) := by
  unfold search
  rcases hnew : proven.lookup goal with _ | d
  · rcases hfact : db.fact? goal with _ | i
    · dsimp only
      split
      · rename_i hmem
        exact cycle hnew hfact hmem
      · rename_i hmem
        rcases room with _ | r
        · exact full hnew hfact hmem rfl
        · dsimp only
          rcases hrules : tryRules (search db r (goal :: path)) goal (db.rulesFor goal) .none proven
            with ⟨f | d, q⟩
          · exact failed r f q hnew hfact hmem rfl hrules
          · exact proved r d q hnew hfact hmem rfl hrules
    · exact fact i hnew hfact
  · exact known d hnew

/-! ### Carrying a path along -/

section Carry

variable {P : Atom → Memory → Attempt Memory Derivation}
  {S : Atom → Proven → Attempt Proven Derivation} {path onPath : List Atom}

/-- An attempt that leaves a given path alone. -/
def carry {α : Type} (path onPath : List Atom) (r : Attempt Proven α) : Attempt Memory α :=
  (r.1, ⟨path, onPath, r.2⟩)

theorem proveAll_carry (h : ∀ a p, P a ⟨path, onPath, p⟩ = carry path onPath (S a p)) :
    ∀ as p, proveAll P as ⟨path, onPath, p⟩ = carry path onPath (proveAll S as p) := by
  intro as
  induction as with
  | nil => intro p; rfl
  | cons a rest ih =>
    intro p
    simp only [proveAll, h a p]
    rcases hS : S a p with ⟨f | d, p'⟩
    · rfl
    · simp only [carry, ih p']
      rcases proveAll S rest p' with ⟨f | ds, p''⟩ <;> rfl

theorem tryRules_carry (h : ∀ a p, P a ⟨path, onPath, p⟩ = carry path onPath (S a p))
    (goal : Atom) : ∀ rules setbacks p,
      tryRules P goal rules setbacks ⟨path, onPath, p⟩ =
        carry path onPath (tryRules S goal rules setbacks p) := by
  intro rules
  induction rules with
  | nil => intro setbacks p; rfl
  | cons rule rest ih =>
    intro setbacks p
    obtain ⟨i, c⟩ := rule
    simp only [tryRules, proveAll_carry h c.body p]
    rcases hS : proveAll S c.body p with ⟨(a | cycle | a) | ds, p'⟩
    · exact ih _ p'
    · exact ih _ p'
    · rfl
    · simp only [carry]
      split
      · exact ih _ p'
      · rfl

end Carry

/-! ### The two searches agree -/

/-- The two records of the path tell the same goals. -/
def Memory.Consistent (m : Memory) : Prop := ∀ a, a ∈ m.onPath ↔ a ∈ m.path

theorem Memory.Consistent.enter {m : Memory} (h : m.Consistent) (goal : Atom) :
    (m.enter goal).Consistent := by
  intro a
  simp only [Memory.enter, List.mem_insert_iff, List.mem_cons, h a]

/-- Entering a goal and leaving it again restores both records of the path. -/
theorem Memory.leave_enter {m : Memory} {goal : Atom} (h : goal ∉ m.onPath) (p : Proven) :
    (Memory.mk (m.enter goal).path (m.enter goal).onPath p).leave goal =
      { m with proven := p } := by
  have hinsert : m.onPath.insert goal = goal :: m.onPath := List.insert_of_not_mem h
  simp only [Memory.leave, Memory.enter, hinsert, List.tail_cons, List.erase_cons_head]

/-- **The search leaves its path as it found it**, and otherwise does what it does
    with the path as an argument. -/
theorem prove_eq_search (db : Database) : ∀ room goal (m : Memory), m.Consistent →
    prove db room goal m = carry m.path m.onPath (search db room m.path goal m.proven) := by
  intro room
  induction room with
  | zero =>
    intro goal m hm
    unfold prove search
    rcases m.proven.lookup goal with _ | d
    · rcases db.fact? goal with _ | i
      · by_cases hmem : goal ∈ m.path
        · simp only [if_pos ((hm goal).2 hmem), if_pos hmem]
          rfl
        · simp only [if_neg (mt (hm goal).1 hmem), if_neg hmem]
          rfl
      · rfl
    · rfl
  | succ room ih =>
    intro goal m hm
    rw [prove, search]
    rcases m.proven.lookup goal with _ | d
    · rcases db.fact? goal with _ | i
      · by_cases hmem : goal ∈ m.path
        · simp only [if_pos ((hm goal).2 hmem), if_pos hmem]
          rfl
        · have hon : goal ∉ m.onPath := mt (hm goal).1 hmem
          have hrules := tryRules_carry
            (fun a p => ih a ⟨(m.enter goal).path, (m.enter goal).onPath, p⟩ (hm.enter goal)) goal
            (db.rulesFor goal) .none m.proven
          simp only [if_neg hon, if_neg hmem]
          split
          · -- without rules there is nothing to enter the goal for
            rename_i hnone
            rw [hnone]
            rfl
          · have hstart : m.enter goal = ⟨(m.enter goal).path, (m.enter goal).onPath, m.proven⟩ :=
              rfl
            rw [hstart, hrules]
            have hpath : (m.enter goal).path = goal :: m.path := rfl
            rw [hpath]
            rcases tryRules (search db room (goal :: m.path)) goal (db.rulesFor goal) .none
              m.proven with ⟨f | d, p⟩
            · simp only [carry]
              exact congrArg (Prod.mk _) (Memory.leave_enter hon p)
            · simp only [carry]
              exact congrArg (fun k : Memory => (Except.ok d, k.keep goal d))
                (Memory.leave_enter hon p)
      · rfl
    · rfl

end HornPlan.Derivation
