/-
  HornPlan/Proofs/Search/Blame.lean
  =================================
  **What a failure is blamed on.**

  A goal that is not proved is refused with one failure, although there may be many
  rules for it and each of them may fail in its own way.  `Blames` says where such a
  failure can come from: it arises at the goal, or below a rule for the goal, at one of
  the atoms that the rule asks for.  So it is found at the end of a chain of rules.

  Failures are not kept in memory, but proofs are, and a goal is refused because of a
  kept proof when a rule for it rests on a held instance.  The kept proof is justified,
  so a clause of the database says that it is one of a held instance.

  `search_blames` shows that every failure of a search comes about in this way, and
  `Session.exists_failsFirst` which output a failing session reports it for.
-/
import HornPlan.Proofs.Search.Agreement

namespace HornPlan

namespace Derivation

/-- Below a path, a goal is refused with a failure that comes from its rules. -/
inductive Blames (db : Database) : List Atom → Atom → Failure → Prop
  /-- The goal is on its own path. -/
  | cycle {path : List Atom} {goal : Atom} (hfact : db.fact? goal = none) (hmem : goal ∈ path) :
    Blames db path goal (.cycle (cycleTo goal path))
  /-- There is no room for the goal. -/
  | tooDeep {path : List Atom} {goal : Atom} : Blames db path goal (.tooDeep goal)
  /-- Nothing is known about the goal. -/
  | unknown {path : List Atom} {goal : Atom} (hfact : db.fact? goal = none)
    (hrules : db.rulesFor goal = []) : Blames db path goal (.underivable goal)
  /-- A rule for the goal asks for a made instance, where another one is held. -/
  | held {path : List Atom} {goal : Atom} {c g : Clause} (hfact : db.fact? goal = none)
    (hc : c ∈ db.clauses) (hhead : c.head = goal)
    (hkind : c.kind = .assignment ∨ c.kind = .completion)
    (hg : g ∈ db.clauses) (hgen : g.kind = .generalization) (hfirst : c.body.head? = some g.head) :
    Blames db path goal (.underivable goal)
  /-- A rule for the goal asks for an atom that is refused. -/
  | rule {path : List Atom} {goal b : Atom} {c : Clause} {f : Failure}
    (hfact : db.fact? goal = none) (hnew : goal ∉ path) (hc : c ∈ db.clauses)
    (hkind : c.kind ≠ .inputFact) (hhead : c.head = goal) (hb : b ∈ c.body)
    (h : Blames db (goal :: path) b f) : Blames db path goal f

/-! ### One rule, and all rules of a goal -/

section Attempts

variable {I : Proven → Prop} {prove : Atom → Proven → Attempt Proven Derivation}

/-- Of atoms that are proved one after the other the first one that fails is blamed. -/
theorem proveAll_blames (hsane : Sane I prove) {as : List Atom} : ∀ {p q f}, I p →
    proveAll prove as p = (.error f, q) →
      ∃ a ∈ as, ∃ p' q', I p' ∧ prove a p' = (.error f, q') := by
  induction as with
  | nil =>
    intro p q f _ h
    cases h
  | cons a rest ih =>
    intro p q f hp h
    unfold proveAll at h
    rcases ha : prove a p with ⟨g | d, p'⟩
    · rw [ha] at h
      cases h
      exact ⟨a, List.mem_cons_self, p, _, hp, ha⟩
    · rw [ha] at h
      dsimp only at h
      have hp' := (hsane a p _ p' hp ha).1
      rcases hrest : proveAll prove rest p' with ⟨g | ds, q'⟩
      · rw [hrest] at h
        cases h
        obtain ⟨b, hb, hfail⟩ := ih hp' hrest
        exact ⟨b, List.mem_cons_of_mem _ hb, hfail⟩
      · rw [hrest] at h
        cases h

/-- Does something hold of all failures that have been noted? -/
def Setbacks.All (s : Setbacks) (good : Failure → Prop) : Prop :=
  (∀ a, s.underivable = some a → good (.underivable a)) ∧
    ∀ path, s.cycle = some path → good (.cycle path)

theorem Setbacks.all_none (good : Failure → Prop) : Setbacks.none.All good :=
  ⟨fun _ h => (nomatch h), fun _ h => (nomatch h)⟩

theorem Setbacks.All.noteUnderivable {s : Setbacks} {good : Failure → Prop} (h : s.All good)
    {a : Atom} (ha : good (.underivable a)) : (s.noteUnderivable a).All good := by
  refine ⟨fun b hb => ?_, h.2⟩
  rcases hs : s.underivable with _ | a'
  · rw [Setbacks.noteUnderivable, hs] at hb
    cases hb
    exact ha
  · rw [Setbacks.noteUnderivable, hs] at hb
    cases hb
    exact h.1 _ hs

theorem Setbacks.All.noteCycle {s : Setbacks} {good : Failure → Prop} (h : s.All good)
    {path : List Atom} (hpath : good (.cycle path)) : (s.noteCycle path).All good := by
  refine ⟨h.1, fun path' hb => ?_⟩
  rcases hs : s.cycle with _ | path''
  · rw [Setbacks.noteCycle, hs] at hb
    cases hb
    exact hpath
  · rw [Setbacks.noteCycle, hs] at hb
    cases hb
    exact h.2 _ hs

/-- A goal fails as one of its rules does; or for its own sake, if it has none. -/
theorem tryRules_blames (hsane : Sane I prove) {goal : Atom} {good : Failure → Prop}
    {rules : List (Nat × Clause)} :
    (∀ rule ∈ rules, ∀ b ∈ rule.2.body, ∀ p q f, I p → prove b p = (.error f, q) → good f) →
    (∀ rule ∈ rules, ∀ p q children, I p → proveAll prove rule.2.body p = (.ok children, q) →
      restsOnHeld rule.2 children = true → good (.underivable goal)) →
    ∀ {setbacks p q f}, setbacks.All good →
      (rules = [] → setbacks.underivable = none → setbacks.cycle = none →
        good (.underivable goal)) →
      I p → tryRules prove goal rules setbacks p = (.error f, q) → good f := by
  induction rules with
  | nil =>
    intro _ _ setbacks p q f hall hnone _ h
    cases h
    unfold Setbacks.failure
    split
    · exact hall.1 _ ‹_›
    · exact hall.2 _ ‹_›
    · exact hnone rfl ‹_› ‹_›
  | cons rule rest ih =>
    intro hbodies hheld setbacks p q f hall _ hp h
    obtain ⟨i, c⟩ := rule
    have hnext := @ih (fun r hr => hbodies r (List.mem_cons_of_mem _ hr))
      fun r hr => hheld r (List.mem_cons_of_mem _ hr)
    unfold tryRules at h
    rcases hbody : proveAll prove c.body p with ⟨f' | children, p'⟩
    · have hp' := (hsane.proveAll c.body p _ p' hp hbody).1
      obtain ⟨b, hb, p₁, q₁, hp₁, hfail⟩ := proveAll_blames hsane hp hbody
      have hgood := hbodies (i, c) List.mem_cons_self b hb p₁ q₁ f' hp₁ hfail
      rw [hbody] at h
      rcases f' with a | path | a
      · -- once a failure is noted, the goal does not fail for its own sake
        refine hnext (hall.noteUnderivable hgood) (fun _ hu => ?_) hp' h
        simp [Setbacks.noteUnderivable] at hu
      · refine hnext (hall.noteCycle hgood) (fun _ _ hc => ?_) hp' h
        simp [Setbacks.noteCycle] at hc
      · cases h
        exact hgood
    · have hp' := (hsane.proveAll c.body p _ p' hp hbody).1
      rw [hbody] at h
      dsimp only at h
      split at h
      · rename_i hrests
        have hgood := hheld (i, c) List.mem_cons_self p p' children hp hbody hrests
        refine hnext (hall.noteUnderivable hgood) (fun _ hu => ?_) hp' h
        simp [Setbacks.noteUnderivable] at hu
      · cases h

end Attempts

/-! ### Goals -/

/-- A rule rests on a held instance only if a clause says that one stands for what the
    rule asks for first. -/
theorem exists_generalization_of_restsOnHeld {db : Database} {path : List Atom}
    {prove : Atom → Proven → Attempt Proven Derivation} (hsane : Sane (Open db path) prove)
    {c : Clause} {p q : Proven} {children : List Derivation} (hp : Open db path p)
    (hbody : proveAll prove c.body p = (.ok children, q)) (hrests : restsOnHeld c children = true) :
    (c.kind = .assignment ∨ c.kind = .completion) ∧
      ∃ g ∈ db.clauses, g.kind = .generalization ∧ c.body.head? = some g.head := by
  obtain ⟨hq, -, hall⟩ := hsane.proveAll c.body p _ q hp hbody
  obtain ⟨hatoms, hkept⟩ := hq.1.body (hall children rfl)
  simp only [restsOnHeld, decide_eq_true_eq] at hrests
  obtain ⟨hkind, hfirst⟩ := hrests
  refine ⟨hkind, ?_⟩
  rcases children with _ | ⟨d, rest⟩
  · cases hfirst
  · have hgen : d.kind = .generalization := of_decide_eq_true hfirst
    obtain ⟨g, hget, hhead, hgkind, -⟩ := (hq.1.justified (hkept d List.mem_cons_self)).clause
    refine ⟨g, List.mem_of_getElem? hget, hgkind.trans hgen, ?_⟩
    rw [← hatoms, hhead]
    rfl

/-- **Every failure of a search is blamed on a chain of rules.** -/
theorem search_blames (db : Database) : ∀ room path, (∀ g ∈ path, db.fact? g = none) →
    ∀ {goal p q f}, Open db path p → search db room path goal p = (.error f, q) →
      Blames db path goal f := by
  -- on the room: what fails below a rule has failed with less of it
  intro room
  induction room using Nat.strongRecOn with
  | _ room ih =>
  intro path hfacts goal p q f hp
  apply search_cases (motive := fun res => res = (.error f, q) → Blames db path goal f)
  case known => exact fun _ _ h => nomatch h
  case fact => exact fun _ _ _ h => nomatch h
  case proved => exact fun _ _ _ _ _ _ _ _ h => nomatch h
  case cycle =>
    rintro - hfact hmem ⟨⟩
    exact .cycle hfact hmem
  case full =>
    rintro - - - - ⟨⟩
    exact .tooDeep
  case failed =>
    rintro r f q hnew hfact hpath rfl hrules ⟨⟩
    have hfacts' : ∀ g ∈ goal :: path, db.fact? g = none := List.forall_mem_cons.2 ⟨hfact, hfacts⟩
    have hsane := search_sane db r (goal :: path) hfacts'
    refine tryRules_blames hsane ?_ ?_ (Setbacks.all_none _) ?_ (hp.enter hnew) hrules
    · rintro ⟨i, c⟩ hrule b hb p' q' f' hp' hfail
      obtain ⟨hget, hkind, hhead⟩ := Database.mem_rulesFor.1 hrule
      exact .rule hfact hpath (List.mem_of_getElem? hget) hkind hhead hb
        (ih r (Nat.lt_succ_self r) (goal :: path) hfacts' hp' hfail)
    · rintro ⟨i, c⟩ hrule p' q' children hp' hbody hrests
      obtain ⟨hget, -, hhead⟩ := Database.mem_rulesFor.1 hrule
      obtain ⟨hkind, g, hg, hgen, hfirst⟩ :=
        exists_generalization_of_restsOnHeld hsane hp' hbody hrests
      exact .held hfact (List.mem_of_getElem? hget) hhead hkind hg hgen hfirst
    · exact fun hnil _ _ => .unknown hfact hnil

end Derivation

/-! ### Sessions -/

namespace Session

open HornPlan.Derivation

/-- The first output that a session does not prove, and the failure to do so. -/
def FailsFirst (s : Session) (o : Tuple) (f : Failure) : Prop :=
  ∃ before after ds, s.database.outputs = before ++ o :: after ∧
    (deriveAll before s).1 = .ok ds ∧ ((deriveAll before s).2.prove (.resource o)).1 = .error f

theorem FailsFirst.mem_outputs {s : Session} {o : Tuple} {f : Failure} (h : s.FailsFirst o f) :
    o ∈ s.database.outputs := by
  obtain ⟨before, after, -, hsplit, -⟩ := h
  rw [hsplit]
  exact List.mem_append_right _ List.mem_cons_self

theorem Settled.blames {s : Session} (hs : s.Settled) {goal : Atom} {f : Failure}
    (h : (s.prove goal).1 = .error f) : Blames s.database [] goal f := by
  rcases hr : search s.database s.maxDepth [] goal s.memory.proven with ⟨r, q⟩
  rw [hs.prove_eq hr] at h
  dsimp only at h
  subst h
  exact search_blames s.database s.maxDepth [] nofun ⟨hs.coherent, nofun⟩ hr

/-- A session that fails to prove tuples one after the other fails to prove the first that
    it does not prove. -/
theorem exists_failure_of_deriveAll (ts : List Tuple) : ∀ {s : Session}, s.Settled → ∀ {e},
    (deriveAll ts s).1 = .error e → ∃ before t after ds f, ts = before ++ t :: after ∧
      (deriveAll before s).1 = .ok ds ∧ ((deriveAll before s).2.prove (.resource t)).1 = .error f ∧
        e = s.surface t f ∧ Blames s.database [] (.resource t) f := by
  induction ts with
  | nil => exact fun _ _ h => nomatch h
  | cons t rest ih =>
    intro s hs e h
    obtain ⟨hnext, -⟩ := prove_succeeds hs (.resource t)
    rcases hp : s.prove (.resource t) with ⟨f | d, u⟩
    · have hfail : (s.prove (.resource t)).1 = .error f := by rw [hp]
      rw [deriveAll_cons_fst, hfail] at h
      cases h
      exact ⟨[], t, rest, [], f, rfl, rfl, hfail, surface_congr hnext.maxDepth t f, hs.blames hfail⟩
    · rw [hp] at hnext
      rw [deriveAll_cons_of_ok hp] at h
      rcases hrest : (deriveAll rest u).1 with e' | ds
      · rw [hrest] at h
        cases h
        obtain ⟨before, t', after, ds, f, rfl, hds, hfail, rfl, hblames⟩ := ih hnext.settled hrest
        refine ⟨t :: before, t', after, (t, d) :: ds, f, rfl, ?_, ?_,
          surface_congr hnext.maxDepth t' f, ?_⟩
        · rw [deriveAll_cons_of_ok hp, hds]
          rfl
        · rw [deriveAll_cons_of_ok hp]
          exact hfail
        · rw [← hnext.database]
          exact hblames
      · rw [hrest] at h
        cases h

/-- **A session that does not derive the outputs reports the first one that it does not
    prove**, and the failure is blamed on a chain of rules. -/
theorem exists_failsFirst {s : Session} (hs : s.Settled) {e : Error} (h : s.derive.1 = .error e) :
    ∃ o f, s.FailsFirst o f ∧ e = s.surface o f ∧ Blames s.database [] (.resource o) f := by
  obtain ⟨before, o, after, ds, f, hsplit, hds, hfail, he, hblames⟩ :=
    exists_failure_of_deriveAll s.database.outputs hs h
  exact ⟨o, f, ⟨before, after, ds, hsplit, hds, hfail⟩, he, hblames⟩

end Session

end HornPlan
