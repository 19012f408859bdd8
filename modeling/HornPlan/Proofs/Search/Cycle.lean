/-
  HornPlan/Proofs/Search/Cycle.lean
  =================================
  **A cycle that is reported is there.**

  The path of a search is a descent (`Descent`): from the goal that is asked for, each
  goal on it is asked for by a rule for the one before, none is on it twice, and none is
  stated as a fact.  A goal that comes up again closes the part of the path from there
  on, so that part is a cycle of the database.

  What is then done with the cycle does not matter.  The failure is noted, other rules
  are tried, and it may be given up for another one; but a failure that is reported in
  the end has come from the end of some descent (`Derivation.Blames`), and all descents
  from the goal are alike.

  `cyclicDependency_is_cycle` says so of a session that has been asked for other things
  before.  Hence a database without cycles is never said to have one.

  Specification, section 8 (cycle detection), of `CyclicDependency`.
-/
import HornPlan.Proofs.Query.Acyclic
import HornPlan.Proofs.Search.Blame
import Mathlib.Data.List.Chain

namespace HornPlan

open Relation

namespace Database

variable {db : Database} {origin a b : Atom} {atoms : List Atom}

/-- Does a rule for the first atom ask for the second? -/
def Requires (db : Database) (a b : Atom) : Prop :=
  ∃ c ∈ db.clauses, c.kind ≠ .inputFact ∧ c.head = a ∧ b ∈ c.body

theorem Requires.leadsTo (h : db.Requires a b) : db.LeadsTo a b := by
  obtain ⟨c, hc, -, hhead, hb⟩ := h
  exact ⟨c, hc, hhead, hb⟩

/-- The atoms lead from the first one back to it, and `origin` leads to all of them. -/
structure IsCycle (db : Database) (origin : Atom) (atoms : List Atom) : Prop where
  two_le_length : 2 ≤ atoms.length
  closed : atoms.head? = atoms.getLast?
  nodup : atoms.dropLast.Nodup
  chain : atoms.IsChain db.Requires
  reached : ∀ a ∈ atoms, ReflTransGen db.LeadsTo origin a
  notFact : ∀ a ∈ atoms, ∀ c ∈ db.clauses, c.kind = .inputFact → c.head ≠ a

theorem IsCycle.not_acyclic (h : db.IsCycle origin atoms) : ¬ db.Acyclic := by
  intro hacyclic
  rcases atoms with _ | ⟨a, _ | ⟨b, rest⟩⟩
  · exact absurd h.two_le_length (by simp)
  · exact absurd h.two_le_length (by simp)
  · obtain ⟨hab, hrest⟩ := List.isChain_cons_cons.1 h.chain
    have hlast : (b :: rest).getLast (List.cons_ne_nil _ _) = a := by
      have hclosed := h.closed
      rw [List.head?_cons, List.getLast?_cons_cons, List.getLast?_eq_some_getLast] at hclosed
      exact (Option.some.inj hclosed).symm
    have hchain : (b :: rest).IsChain db.LeadsTo := hrest.imp fun _ _ => Requires.leadsTo
    have hback := List.relationReflTransGen_of_exists_isChain_cons rest hchain hlast
    exact hacyclic a (TransGen.head' hab.leadsTo hback)

end Database

namespace Derivation

variable {db : Database} {origin goal b : Atom} {path : List Atom}

/-! ### The path of a search -/

/-- Rules lead from `origin` along the path, the latest goal of which comes first, to
    the goal. -/
structure Descent (db : Database) (origin : Atom) (path : List Atom) (goal : Atom) : Prop where
  chain : (goal :: path).IsChain fun a b => db.Requires b a
  nodup : path.Nodup
  notFact : ∀ a ∈ path, db.fact? a = none
  reached : ∀ a ∈ goal :: path, ReflTransGen db.LeadsTo origin a

theorem Descent.start (db : Database) (goal : Atom) : Descent db goal [] goal := by
  constructor
  · exact .singleton goal
  · exact .nil
  · simp
  · simp [ReflTransGen.refl]

/-- A new goal of a descent may be entered. -/
theorem Descent.enter (h : Descent db origin path goal) (hnew : goal ∉ path)
    (hfact : db.fact? goal = none) (hstep : db.Requires goal b) :
    Descent db origin (goal :: path) b := by
  constructor
  · exact .cons_cons hstep h.chain
  · exact List.nodup_cons.2 ⟨hnew, h.nodup⟩
  · exact List.forall_mem_cons.2 ⟨hfact, h.notFact⟩
  · have hgoal := h.reached goal List.mem_cons_self
    exact List.forall_mem_cons.2 ⟨hgoal.tail hstep.leadsTo, h.reached⟩

theorem cycleTo_append {before after : List Atom} (h : goal ∉ before) :
    cycleTo goal (before ++ goal :: after) = goal :: before.reverse ++ [goal] := by
  have hall : ∀ a ∈ before, decide (a ≠ goal) = true := by
    intro a ha
    exact decide_eq_true fun heq => h (heq ▸ ha)
  rw [cycleTo, List.takeWhile_append_of_pos hall]
  simp

/-- **A goal that comes up again closes a cycle.** -/
theorem Descent.isCycle (h : Descent db origin path goal) (hmem : goal ∈ path) :
    db.IsCycle origin (cycleTo goal path) := by
  obtain ⟨before, after, rfl, hbefore⟩ := List.eq_append_cons_of_mem hmem
  rw [cycleTo_append hbefore]
  have hpart : ∀ a ∈ goal :: before.reverse ++ [goal], a ∈ before ++ goal :: after := by
    intro a ha
    simp only [List.mem_append, List.mem_cons, List.mem_reverse, List.not_mem_nil, or_false] at ha ⊢
    tauto
  constructor
  · simp
  · rw [List.getLast?_concat]
    rfl
  · have hnodup := List.nodup_append.1 h.nodup
    rw [List.dropLast_concat, List.nodup_cons]
    simp [hbefore, hnodup.1]
  · -- the path has its latest goal first, so the cycle is read against it
    have hreverse : goal :: before.reverse ++ [goal] = (goal :: (before ++ [goal])).reverse := by
      simp
    rw [hreverse, List.isChain_reverse]
    apply h.chain.prefix
    simp
  · intro a ha
    exact h.reached a (List.mem_cons_of_mem _ (hpart a ha))
  · intro a ha c hc hkind hhead
    exact Database.fact?_eq_none.1 (h.notFact a (hpart a ha)) c hc ⟨hkind, hhead⟩

/-- **Whatever cycle a failure tells of, it is one of the database.** -/
theorem Blames.isCycle {f : Failure} (h : Blames db path goal f) {atoms : List Atom} :
    Descent db origin path goal → f = .cycle atoms → db.IsCycle origin atoms := by
  -- on the chain of rules that the failure has come from; the descent grows with it
  induction h with
  | cycle _ hmem =>
    rintro hdescent ⟨⟩
    exact hdescent.isCycle hmem
  | tooDeep => exact fun _ hf => nomatch hf
  | unknown => exact fun _ hf => nomatch hf
  | held => exact fun _ hf => nomatch hf
  | rule hfact hnew hc hkind hhead hb _ ih =>
    intro hdescent hf
    exact ih (hdescent.enter hnew hfact ⟨_, hc, hkind, hhead, hb⟩) hf

end Derivation

/-! ### Sessions -/

namespace Session

open HornPlan.Derivation

/-- The goal that a request ends with, and the failure to prove it. -/
inductive StuckAt (s : Session) : Request → Atom → Failure → Prop
  | derive {o : Tuple} {f : Failure} (h : s.FailsFirst o f) : StuckAt s .derive (.resource o) f
  | prove {goal : Atom} {f : Failure} (h : (s.prove goal).1 = .error f) :
    StuckAt s (.prove goal) goal f

/-- An answer is an error if what it answers with is. -/
theorem error_of_answer {s : Session} {e : Error} :
    ((s.answer .derive).1 = .error e → s.derive.1 = .error e) ∧
      ∀ goal, (s.answer (.prove goal)).1 = .error e → (s.proveAtom goal).1 = .error e := by
  constructor
  · intro h
    rw [answer] at h
    rcases hderive : s.derive with ⟨e' | ds, t⟩
    · rw [hderive] at h
      cases h
      rfl
    · rw [hderive] at h
      cases h
  · intro goal h
    rw [answer] at h
    rcases hprove : s.proveAtom goal with ⟨e' | d, t⟩
    · rw [hprove] at h
      cases h
      rfl
    · rw [hprove] at h
      cases h

theorem proveAtom_eq_cyclicDependency {s : Session} {goal : Atom} {texts : List String}
    (h : (s.proveAtom goal).1 = .error (.cyclicDependency texts)) :
    ∃ atoms, (s.prove goal).1 = .error (.cycle atoms) ∧ texts = atoms.map Atom.text := by
  unfold proveAtom at h
  rcases hp : s.prove goal with ⟨(a | atoms | a) | d, t⟩
  · rw [hp] at h
    cases h
  · rw [hp] at h
    cases h
    exact ⟨atoms, rfl, rfl⟩
  · rw [hp] at h
    cases h
  · rw [hp] at h
    cases h

/-- A request that ends with a cycle is stuck at a goal whose failure the cycle is. -/
theorem exists_stuckAt {s : Session} (hs : s.Settled) {request : Request} {texts : List String}
    (h : (s.answer request).1 = .error (.cyclicDependency texts)) :
    ∃ goal atoms, s.StuckAt request goal (.cycle atoms) ∧ texts = atoms.map Atom.text ∧
      Blames s.database [] goal (.cycle atoms) := by
  cases request with
  | derive =>
    obtain ⟨o, f, hfirst, he, hblames⟩ := exists_failsFirst hs (error_of_answer.1 h)
    cases f with
    | cycle atoms =>
      cases he
      exact ⟨_, atoms, .derive hfirst, rfl, hblames⟩
    | underivable a => cases he
    | tooDeep a => cases he
  | prove goal =>
    obtain ⟨atoms, hfail, htexts⟩ := proveAtom_eq_cyclicDependency (error_of_answer.2 goal h)
    exact ⟨goal, atoms, .prove hfail, htexts, hs.blames hfail⟩

/-- **A cycle that a session reports is there**, whatever it has been asked before: the
    atoms that it names lead from the goal that it is stuck at along rules of the
    database and back to the first of them.  So the database is not acyclic. -/
theorem cyclicDependency_is_cycle (db : Database) (maxDepth : Nat) (earlier : List Request)
    (request : Request) (texts : List String)
    (h : ((answers earlier (start db maxDepth)).2.answer request).1 =
      .error (.cyclicDependency texts)) :
    (∃ goal atoms, (answers earlier (start db maxDepth)).2.StuckAt request goal (.cycle atoms) ∧
      texts = atoms.map Atom.text ∧ db.IsCycle goal atoms) ∧ ¬ db.Acyclic := by
  obtain ⟨hnext, -⟩ := answers_succeed earlier (settled_start db maxDepth)
  obtain ⟨goal, atoms, hstuck, htexts, hblames⟩ := exists_stuckAt hnext.settled h
  have hdb : (answers earlier (start db maxDepth)).2.database = db := hnext.database
  rw [hdb] at hblames
  have hcycle := hblames.isCycle (Descent.start db goal) rfl
  exact ⟨⟨goal, atoms, hstuck, htexts, hcycle⟩, hcycle.not_acyclic⟩

/-- Two mirrors, each of which is only there with a picture of the other. -/
def mirrors : Database :=
  let left := Query.instanceOf "left" 1
  let right := Query.instanceOf "right" 1
  let picture (of on : Tuple) : Step :=
    .ofDescriptor ⟨"mirror", ⟨"Mirror", "", of.type, on.type, .ok⟩⟩ of on
  { Database.empty.pushAll [.completion left false,
      .allDependencies left [.property "mirror" left],
      .dependentDescriptor (picture right left) "mirror" [],
      .completion right false,
      .allDependencies right [.property "mirror" right],
      .dependentDescriptor (picture left right) "mirror" []] with
    outputs := [left] }

/-- Asked for the outputs after some mirror that nothing makes, a session reports the
    cycle. -/
theorem cyclicDependency_is_cycle_mirrors :
    let s := (answers [.prove (.any "left")] (start mirrors 9)).2
    let texts := ["left_1", "all_dependencies(left_1)", "mirror(left_1)", "right_1",
      "all_dependencies(right_1)", "mirror(right_1)", "left_1"]
    (s.answer .derive).1 = .error (.cyclicDependency texts) ∧
      (∃ goal atoms, s.StuckAt .derive goal (.cycle atoms) ∧ texts = atoms.map Atom.text ∧
        mirrors.IsCycle goal atoms) ∧ ¬ mirrors.Acyclic := by
  intro s texts
  have h : (s.answer .derive).1 = .error (.cyclicDependency texts) := by rfl
  exact ⟨h, cyclicDependency_is_cycle mirrors 9 _ _ _ h⟩

end Session

end HornPlan
