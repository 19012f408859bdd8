/-
  HornPlan/Proofs/Search/Agreement.lean
  =====================================
  **A search sees no clauses but those that its goals lead to.**

  Two databases agree on a set of atoms if both have the same clauses for them, in the
  same order, and the bodies of these clauses do not leave the set (`AgreeOn`).  What
  else the databases hold only moves the clauses to other positions.  A proof shows the
  positions of its clauses; read with the clauses themselves in their place
  (`Derivation.spelled`), the proofs from the two databases are the same.

  So the two searches take the same course, step by step: they try the same rules, fail
  for the same reason, run out of room at the same goal, and keep proofs that read the
  same (`search_agrees`).  A plan does not show the positions either
  (`ofDerivations_eq_of_alike`).
-/
import HornPlan.Proofs.Plan.Walk
import Mathlib.Data.List.Forall2

namespace HornPlan

/-! ### Proofs with their clauses spelled out -/

/-- A proof tree that shows the clauses themselves, not where they stand. -/
inductive SpelledProof where
  | node (atom : Atom) (clause : Option Clause) (kind : ClauseKind) (children : List SpelledProof)

namespace Derivation

mutual

def spelled (db : Database) : Derivation → SpelledProof
  | ⟨atom, clause, kind, children⟩ => .node atom db.clauses[clause]? kind (spelledAll db children)

def spelledAll (db : Database) : List Derivation → List SpelledProof
  | [] => []
  | d :: rest => d.spelled db :: spelledAll db rest

end

theorem spelled_eq (db : Database) (d : Derivation) :
    d.spelled db = .node d.atom db.clauses[d.clause]? d.kind (d.children.map (spelled db)) := by
  have hall : ∀ ds : List Derivation, spelledAll db ds = ds.map (spelled db) := by
    intro ds
    induction ds with
    | nil => rfl
    | cons d rest ih => rw [spelledAll, ih, List.map_cons]
  obtain ⟨atom, clause, kind, children⟩ := d
  rw [spelled, hall]

/-- Do two proofs read the same, each over its own database? -/
def Alike (db db' : Database) (d d' : Derivation) : Prop := d.spelled db = d'.spelled db'

section Alike

variable {db db' : Database}

theorem forall₂_alike_iff {ds ds' : List Derivation} :
    List.Forall₂ (Alike db db') ds ds' ↔ ds.map (spelled db) = ds'.map (spelled db') := by
  induction ds generalizing ds' with
  | nil => cases ds' <;> simp
  | cons d rest ih => cases ds' <;> simp [ih, Alike]

theorem alike_iff {d d' : Derivation} :
    Alike db db' d d' ↔ d.atom = d'.atom ∧ db.clauses[d.clause]? = db'.clauses[d'.clause]? ∧
      d.kind = d'.kind ∧ List.Forall₂ (Alike db db') d.children d'.children := by
  rw [Alike, spelled_eq, spelled_eq, SpelledProof.node.injEq, forall₂_alike_iff]

theorem restsOnHeld_eq_of_alike {c : Clause} {ds ds' : List Derivation}
    (h : List.Forall₂ (Alike db db') ds ds') : restsOnHeld c ds = restsOnHeld c ds' := by
  cases h with
  | nil => rfl
  | cons hd _ => simp [restsOnHeld, (alike_iff.1 hd).2.2.1]

end Alike

/-! ### Searches in step -/

/-- Proofs of what they are filed under, spelled out. -/
def spelledPairs {α : Type} (db : Database) (p : List (α × Derivation)) :
    List (α × SpelledProof) :=
  p.map fun entry => (entry.1, entry.2.spelled db)

theorem lookup_spelledPairs (db : Database) (p : Proven) (a : Atom) :
    (spelledPairs db p).lookup a = (p.lookup a).map (spelled db) := by
  induction p with
  | nil => rfl
  | cons entry rest ih =>
    rw [spelledPairs, List.map_cons, lookup_insert, lookup_insert]
    split
    · rfl
    · exact ih

theorem spelledPairs_cons {α : Type} {db db' : Database} {d d' : Derivation}
    {p p' : List (α × Derivation)} (a : α) (hd : Alike db db' d d')
    (hp : spelledPairs db p = spelledPairs db' p') :
    spelledPairs db ((a, d) :: p) = spelledPairs db' ((a, d') :: p') :=
  congrArg₂ List.cons (congrArg (Prod.mk a) hd) hp

/-- Attempts that end in the same way and keep the same, each over its own database.
    What they yield is related by `R`. -/
inductive InStep {α : Type} (db db' : Database) (R : α → α → Prop) :
    Attempt Proven α → Attempt Proven α → Prop
  | error {f : Failure} {p p' : Proven} (hkept : spelledPairs db p = spelledPairs db' p') :
    InStep db db' R (.error f, p) (.error f, p')
  | ok {a a' : α} {p p' : Proven} (h : R a a') (hkept : spelledPairs db p = spelledPairs db' p') :
    InStep db db' R (.ok a, p) (.ok a', p')

section InStep

variable {db db' : Database} {f f' : Atom → Proven → Attempt Proven Derivation} {S : Set Atom}
  (h : ∀ a ∈ S, ∀ p p', spelledPairs db p = spelledPairs db' p' →
    InStep db db' (Alike db db') (f a p) (f' a p'))
include h

theorem proveAll_inStep (as : List Atom) : (∀ a ∈ as, a ∈ S) →
    ∀ p p', spelledPairs db p = spelledPairs db' p' →
      InStep db db' (List.Forall₂ (Alike db db')) (proveAll f as p) (proveAll f' as p') := by
  induction as with
  | nil => exact fun _ _ _ hkept => .ok .nil hkept
  | cons a rest ih =>
    intro has p p' hkept
    have hfirst := h a (has a List.mem_cons_self) p p' hkept
    have hrest := ih fun b hb => has b (List.mem_cons_of_mem _ hb)
    unfold proveAll
    generalize f a p = x, f' a p' = x' at hfirst
    cases hfirst with
    | error hkept => exact .error hkept
    | @ok d d' p p' hd hkept =>
      have hothers := hrest p p' hkept
      dsimp only
      generalize proveAll f rest p = y, proveAll f' rest p' = y' at hothers
      cases hothers with
      | error hkept => exact .error hkept
      | ok hds hkept => exact .ok (.cons hd hds) hkept

/-- The rules are the same clauses, which may stand in different places. -/
theorem tryRules_inStep (goal : Atom) (rules : List (Nat × Clause)) : ∀ rules',
    rules.map (fun r => (db.clauses[r.1]?, r.2)) = rules'.map (fun r => (db'.clauses[r.1]?, r.2)) →
      (∀ r ∈ rules, ∀ b ∈ r.2.body, b ∈ S) → ∀ setbacks p p',
        spelledPairs db p = spelledPairs db' p' →
          InStep db db' (Alike db db') (tryRules f goal rules setbacks p)
            (tryRules f' goal rules' setbacks p') := by
  induction rules with
  | nil =>
    intro rules' hrules _ setbacks p p' hkept
    rw [List.map_nil, eq_comm, List.map_eq_nil_iff] at hrules
    subst hrules
    exact .error hkept
  | cons rule rest ih =>
    intro rules' hrules hbodies setbacks p p' hkept
    obtain ⟨i, c⟩ := rule
    obtain ⟨⟨j, c'⟩, rest', rfl, hrule, hrest⟩ := List.map_eq_cons_iff.1 hrules.symm
    obtain ⟨hclause, rfl⟩ := Prod.mk.injEq .. ▸ hrule
    have hnext := ih rest' hrest.symm fun r hr => hbodies r (List.mem_cons_of_mem _ hr)
    have hbody := proveAll_inStep h c'.body (hbodies (i, c') List.mem_cons_self) p p' hkept
    unfold tryRules
    generalize proveAll f c'.body p = x, proveAll f' c'.body p' = x' at hbody
    cases hbody with
    | @error failure p p' hkept =>
      cases failure with
      | underivable a => exact hnext _ p p' hkept
      | cycle path => exact hnext _ p p' hkept
      | tooDeep a => exact .error hkept
    | @ok ds ds' p p' hds hkept =>
      dsimp only
      rw [restsOnHeld_eq_of_alike hds]
      split
      · exact hnext _ p p' hkept
      · exact .ok (alike_iff.2 ⟨rfl, hclause.symm, rfl, hds⟩) hkept

end InStep

end Derivation

/-! ### Databases that agree -/

namespace Database

/-- The clauses for an atom, in their order. -/
def clausesFor (db : Database) (a : Atom) : List Clause := db.clauses.filter fun c => c.head = a

/-- Do two databases have the same clauses for the atoms of a set, in the same order,
    and do the bodies of these clauses stay in the set? -/
structure AgreeOn (S : Set Atom) (db db' : Database) : Prop where
  clausesFor : ∀ a ∈ S, db.clausesFor a = db'.clausesFor a
  closed : ∀ c ∈ db.clauses, c.head ∈ S → ∀ b ∈ c.body, b ∈ S

/-- The clause of the first fact for an atom is found among the clauses for it. -/
theorem map_fact? (db : Database) (a : Atom) :
    (db.fact? a).map (fun i => db.clauses[i]?) =
      ((db.clausesFor a).find? fun c => c.kind = .inputFact).map some := by
  rw [fact?, clausesFor, List.find?_filter]
  generalize db.clauses = cs
  induction cs with
  | nil => rfl
  | cons c rest ih =>
    rw [List.findIdx?_cons, List.find?_cons]
    by_cases hc : c.kind = .inputFact ∧ c.head = a
    · simp [hc]
    · simp only [hc, decide_false, Bool.false_eq_true, if_false, Option.map_map]
      have hc' : ¬ (c.head = a ∧ c.kind = .inputFact) := fun h => hc h.symm
      simpa [hc', Function.comp_def] using ih

theorem map_rulesFor (db : Database) (a : Atom) :
    (db.rulesFor a).map (fun r => (db.clauses[r.1]?, r.2)) =
      ((List.range 5).flatMap fun rank => ((db.clausesFor a).filter fun c =>
        c.kind ≠ .inputFact).filter fun c => c.kind.rank = rank).map fun c => (some c, c) := by
  have hclauses : ∀ k cs, (rulesAmong a k cs).map Prod.snd =
      (cs.filter fun c => c.head = a).filter fun c => c.kind ≠ .inputFact := by
    intro k cs
    induction cs generalizing k with
    | nil => rfl
    | cons c rest ih =>
      rw [rulesAmong]
      by_cases hhead : c.head = a <;> by_cases hkind : c.kind = .inputFact <;>
        simp [hhead, hkind, ih]
  have hsnd : (db.rulesFor a).map Prod.snd = (List.range 5).flatMap fun rank =>
      ((db.clausesFor a).filter fun c => c.kind ≠ .inputFact).filter fun c =>
        c.kind.rank = rank := by
    simp only [rulesFor, clausesFor, List.map_flatMap, ← hclauses 0, List.filter_map]
    rfl
  rw [← hsnd, List.map_map]
  apply List.map_congr_left
  rintro ⟨i, c⟩ hrule
  rw [(mem_rulesFor.1 hrule).1]
  rfl

/-- A database agrees with what it selects from the clauses of another, if it takes all
    clauses for the atoms of the set. -/
theorem agreeOn_of_filter {S : Set Atom} {db full : Database} {keep : Clause → Bool}
    (h : db.clauses = full.clauses.filter keep)
    (hkeep : ∀ c ∈ full.clauses, c.head ∈ S → keep c = true)
    (hclosed : ∀ c ∈ db.clauses, ∀ b ∈ c.body, b ∈ S) : AgreeOn S full db where
  clausesFor a ha := by
    rw [clausesFor, clausesFor, h, List.filter_filter]
    apply List.filter_congr
    intro c hc
    by_cases hhead : c.head = a
    · simp [hhead, hkeep c hc (hhead ▸ ha)]
    · simp [hhead]
  closed c hc hhead := hclosed c (h ▸ List.mem_filter.2 ⟨hc, hkeep c hc hhead⟩)

end Database

namespace Derivation

variable {S : Set Atom} {db db' : Database}

/-- A search for one goal is in step if the rules of the goal are. -/
theorem search_inStep (h : Database.AgreeOn S db db') {room : Nat} {path : List Atom}
    {goal : Atom} (hgoal : goal ∈ S) {p p' : Proven}
    (hkept : spelledPairs db p = spelledPairs db' p')
    (hrules : ∀ k, room = k + 1 → InStep db db' (Alike db db')
      (tryRules (search db k (goal :: path)) goal (db.rulesFor goal) .none p)
      (tryRules (search db' k (goal :: path)) goal (db'.rulesFor goal) .none p')) :
    InStep db db' (Alike db db') (search db room path goal p) (search db' room path goal p') := by
  have hlookup : (p.lookup goal).map (spelled db) = (p'.lookup goal).map (spelled db') := by
    rw [← lookup_spelledPairs, hkept, lookup_spelledPairs]
  have hfact : (db.fact? goal).map (fun i => db.clauses[i]?) =
      (db'.fact? goal).map (fun i => db'.clauses[i]?) := by
    rw [db.map_fact?, db'.map_fact?, h.clausesFor goal hgoal]
  unfold search
  rcases hp : p.lookup goal with _ | d <;> rcases hp' : p'.lookup goal with _ | d' <;>
    rw [hp, hp'] at hlookup
  · rcases hi : db.fact? goal with _ | i <;> rcases hi' : db'.fact? goal with _ | i' <;>
      rw [hi, hi'] at hfact
    · dsimp only
      split
      · exact .error hkept
      · cases room with
        | zero => exact .error hkept
        | succ room =>
          have hrules := hrules room rfl
          dsimp only
          generalize tryRules (search db room (goal :: path)) goal (db.rulesFor goal) .none p = x,
            tryRules (search db' room (goal :: path)) goal (db'.rulesFor goal) .none p' = x'
            at hrules
          cases hrules with
          | error hkept => exact .error hkept
          | ok hd hkept => exact .ok hd (spelledPairs_cons goal hd hkept)
    · cases hfact
    · cases hfact
    · have hd : Alike db db' ⟨goal, i, .inputFact, []⟩ ⟨goal, i', .inputFact, []⟩ :=
        alike_iff.2 ⟨rfl, Option.some.inj hfact, rfl, .nil⟩
      exact .ok hd (spelledPairs_cons goal hd hkept)
  · cases hlookup
  · cases hlookup
  · exact .ok (Option.some.inj hlookup) hkept

/-- **Searches over databases that agree take the same course.** -/
theorem search_agrees (h : Database.AgreeOn S db db') : ∀ room path, ∀ a ∈ S, ∀ p p',
    spelledPairs db p = spelledPairs db' p' →
      InStep db db' (Alike db db') (search db room path a p) (search db' room path a p') := by
  -- on the room: the bodies of rules are searched with less of it
  intro room
  induction room with
  | zero =>
    intro path goal hgoal p p' hkept
    exact search_inStep h hgoal hkept nofun
  | succ room ih =>
    intro path goal hgoal p p' hkept
    refine search_inStep h hgoal hkept fun k hroom => ?_
    cases hroom
    refine tryRules_inStep (ih (goal :: path)) goal _ _ ?_ ?_ _ _ _ hkept
    · rw [db.map_rulesFor, db'.map_rulesFor, h.clausesFor goal hgoal]
    · rintro ⟨i, c⟩ hrule
      obtain ⟨hget, -, hhead⟩ := Database.mem_rulesFor.1 hrule
      exact h.closed c (List.mem_of_getElem? hget) (hhead ▸ hgoal)

end Derivation

/-! ### Sessions -/

namespace Session

open HornPlan.Derivation

/-- Settled sessions over databases that agree, which have kept the same. -/
structure Alongside (S : Set Atom) (s s' : Session) : Prop where
  settled : s.Settled
  settled' : s'.Settled
  agree : Database.AgreeOn S s.database s'.database
  maxDepth : s.maxDepth = s'.maxDepth
  kept : spelledPairs s.database s.memory.proven = spelledPairs s'.database s'.memory.proven

variable {S : Set Atom} {s s' : Session}

/-- Each of the two proves a goal, in the same way, or neither does, for the same reason. -/
theorem Alongside.prove (h : Alongside S s s') {goal : Atom} (hgoal : goal ∈ S) :
    Alongside S (s.prove goal).2 (s'.prove goal).2 ∧
      ((∃ f, (s.prove goal).1 = .error f ∧ (s'.prove goal).1 = .error f) ∨
        ∃ d d', (s.prove goal).1 = .ok d ∧ (s'.prove goal).1 = .ok d' ∧
          Alike s.database s'.database d d') := by
  have hstep := search_agrees h.agree s.maxDepth [] goal hgoal _ _ h.kept
  obtain ⟨hnext, -⟩ := prove_succeeds h.settled goal
  obtain ⟨hnext', -⟩ := prove_succeeds h.settled' goal
  rcases hr : search s.database s.maxDepth [] goal s.memory.proven with ⟨r, q⟩
  rcases hr' : search s'.database s.maxDepth [] goal s'.memory.proven with ⟨r', q'⟩
  have heq := h.settled.prove_eq hr
  have heq' := h.settled'.prove_eq (h.maxDepth ▸ hr')
  rw [hr, hr'] at hstep
  rw [heq] at hnext ⊢
  rw [heq'] at hnext' ⊢
  cases hstep with
  | error hkept =>
    exact ⟨⟨hnext.settled, hnext'.settled, h.agree, h.maxDepth, hkept⟩, Or.inl ⟨_, rfl, rfl⟩⟩
  | ok hd hkept =>
    exact ⟨⟨hnext.settled, hnext'.settled, h.agree, h.maxDepth, hkept⟩,
      Or.inr ⟨_, _, rfl, rfl, hd⟩⟩

/-- Of a session only the limit shows in the errors. -/
theorem surface_congr {s t : Session} (h : s.maxDepth = t.maxDepth) (subject : Tuple)
    (f : Failure) : s.surface subject f = t.surface subject f := by
  cases f with
  | underivable a => rfl
  | cycle path => rfl
  | tooDeep a => rw [surface, surface, h]

theorem deriveAll_cons_fst (t : Tuple) (rest : List Tuple) (s : Session) :
    (deriveAll (t :: rest) s).1 =
      match (s.prove (.resource t)).1 with
      | .error f => .error ((s.prove (.resource t)).2.surface t f)
      | .ok d => (deriveAll rest (s.prove (.resource t)).2).1.map ((t, d) :: ·) := by
  rw [deriveAll]
  rcases s.prove (.resource t) with ⟨f | d, u⟩
  · rfl
  · dsimp only
    rcases deriveAll rest u with ⟨e | ds, v⟩ <;> rfl

theorem deriveAll_cons_of_ok {t : Tuple} {s u : Session} {d : Derivation}
    (h : s.prove (.resource t) = (.ok d, u)) (rest : List Tuple) :
    deriveAll (t :: rest) s = ((deriveAll rest u).1.map ((t, d) :: ·), (deriveAll rest u).2) := by
  rw [deriveAll, h]
  dsimp only
  rcases deriveAll rest u with ⟨e | ds, v⟩ <;> rfl

/-- The same goes for tuples one after the other. -/
theorem Alongside.deriveAll (ts : List Tuple) : ∀ {s s' : Session}, Alongside S s s' →
    (∀ t ∈ ts, .resource t ∈ S) →
      (∃ e, (deriveAll ts s).1 = .error e ∧ (deriveAll ts s').1 = .error e) ∨
        ∃ ds ds', (deriveAll ts s).1 = .ok ds ∧ (deriveAll ts s').1 = .ok ds' ∧
          spelledPairs s.database ds = spelledPairs s'.database ds' := by
  induction ts with
  | nil => exact fun _ _ => Or.inr ⟨[], [], rfl, rfl, rfl⟩
  | cons t rest ih =>
    intro s s' h hts
    obtain ⟨hnext, hends⟩ := h.prove (hts t List.mem_cons_self)
    obtain ⟨hsucc, -⟩ := prove_succeeds h.settled (.resource t)
    obtain ⟨hsucc', -⟩ := prove_succeeds h.settled' (.resource t)
    have hrest := ih hnext fun u hu => hts u (List.mem_cons_of_mem _ hu)
    rw [hsucc.database, hsucc'.database] at hrest
    rw [deriveAll_cons_fst, deriveAll_cons_fst]
    rcases hends with ⟨f, hf, hf'⟩ | ⟨d, d', hd, hd', halike⟩
    · rw [hf, hf']
      exact Or.inl ⟨_, rfl, congrArg _ (surface_congr hnext.maxDepth t f).symm⟩
    · rw [hd, hd']
      rcases hrest with ⟨e, he, he'⟩ | ⟨ds, ds', hds, hds', hall⟩
      · rw [he, he']
        exact Or.inl ⟨e, rfl, rfl⟩
      · rw [hds, hds']
        exact Or.inr ⟨_, _, rfl, rfl, spelledPairs_cons t halike hall⟩

end Session

/-! ### Plans -/

namespace Derivation

section Alike

variable {db db' : Database} {d d' : Derivation} {l l' : List Derivation}

theorem nodes_alike (h : Alike db db' d d') :
    List.Forall₂ (Alike db db') d.nodes d'.nodes := by
  induction d generalizing d' with
  | node atom clause kind children ih =>
    have hall : ∀ cs cs' : List Derivation, (∀ c ∈ cs, c ∈ children) →
        List.Forall₂ (Alike db db') cs cs' →
          List.Forall₂ (Alike db db') (cs.flatMap nodes) (cs'.flatMap nodes) := by
      intro cs cs' hsub hcs
      induction hcs with
      | nil => exact .nil
      | @cons c c' cs cs' hc _ ihcs =>
        rw [List.flatMap_cons, List.flatMap_cons]
        exact List.rel_append (ih c (hsub c List.mem_cons_self) hc)
          (ihcs fun k hk => hsub k (List.mem_cons_of_mem _ hk))
    rw [nodes_eq, nodes_eq]
    exact List.rel_append (hall _ _ (fun _ hc => hc) (alike_iff.1 h).2.2.2) (.cons h .nil)

theorem nodesAll_alike (h : List.Forall₂ (Alike db db') l l') :
    List.Forall₂ (Alike db db') (nodesAll l) (nodesAll l') := by
  rw [nodesAll_eq, nodesAll_eq]
  exact List.rel_flatMap h fun _ _ => nodes_alike

theorem distinct_alike (h : List.Forall₂ (Alike db db') l l') (seen : List Atom) :
    List.Forall₂ (Alike db db') (distinct seen l) (distinct seen l') := by
  induction h generalizing seen with
  | nil => exact .nil
  | cons hd _ ih =>
    rw [distinct, distinct, (alike_iff.1 hd).1]
    split
    · exact ih _
    · exact .cons hd (ih _)

theorem source_alike (h : Alike db db' d d') : Alike db db' d.source d'.source := by
  induction d generalizing d' with
  | node atom clause kind children ih =>
    obtain ⟨atom', clause', kind', children'⟩ := d'
    obtain ⟨-, -, hkind, hchildren⟩ := alike_iff.1 h
    dsimp only at hkind hchildren
    subst hkind
    cases hchildren with
    | nil => exact h
    | cons hfirst _ =>
      rw [source, source, (alike_iff.1 hfirst).1]
      split
      · exact ih _ List.mem_cons_self hfirst
      · exact h

theorem home_eq_of_alike (h : Alike db db' d d') : d.home = d'.home :=
  congrArg Atom.subject (alike_iff.1 (source_alike h)).1

theorem step?_eq_of_alike (h : Alike db db' d d') : step? db d = step? db' d' := by
  obtain ⟨-, hclause, -, hchildren⟩ := alike_iff.1 h
  have hfirst : d.children.head?.map home = d'.children.head?.map home := by
    generalize d.children = cs, d'.children = cs' at hchildren
    cases hchildren with
    | nil => rfl
    | cons hfirst _ => exact congrArg some (home_eq_of_alike hfirst)
  rw [step?, step?, hclause, hfirst]

theorem input?_eq_of_alike (h : Alike db db' d d') : d.input? = d'.input? := by
  obtain ⟨hatom, -, hkind, -⟩ := alike_iff.1 h
  rw [input?, input?, hatom, hkind]

theorem map_eq_of_alike {α : Type} {f g : Derivation → α}
    (hfg : ∀ d d', Alike db db' d d' → f d = g d') (h : List.Forall₂ (Alike db db') l l') :
    l.map f = l'.map g := by
  induction h with
  | nil => rfl
  | cons hd _ ih => rw [List.map_cons, List.map_cons, hfg _ _ hd, ih]

end Alike

end Derivation

namespace Plan

open HornPlan.Derivation

variable {db db' : Database}

theorem exists_ofDerivations (db : Database) {ds : List (Tuple × Derivation)} (h : ds ≠ []) :
    ∃ p, ofDerivations db ds = .ok p := by
  obtain ⟨last, hlast⟩ := Option.isSome_iff_exists.1 (List.getLast?_isSome.2 h)
  rw [ofDerivations, hlast]
  exact ⟨_, rfl⟩

/-- **The plans of proofs that read the same are the same.** -/
theorem ofDerivations_eq_of_alike {ds ds' : List (Tuple × Derivation)}
    (hds : Genuine db (ds.map Prod.snd)) (hreads : db.ReadsFirst)
    (hatoms : ∀ td ∈ ds, td.2.atom = .resource td.1)
    (hds' : Genuine db' (ds'.map Prod.snd)) (hreads' : db'.ReadsFirst)
    (hatoms' : ∀ td ∈ ds', td.2.atom = .resource td.1)
    (h : spelledPairs db ds = spelledPairs db' ds') :
    ofDerivations db ds = ofDerivations db' ds' := by
  have h : List.Forall₂ (Alike db db') (ds.map Prod.snd) (ds'.map Prod.snd) := by
    rw [forall₂_alike_iff, List.map_map, List.map_map]
    have hproofs := congrArg (List.map Prod.snd) h
    rw [spelledPairs, spelledPairs, List.map_map, List.map_map] at hproofs
    exact hproofs
  have hlength : ds.length = ds'.length := by simpa using h.length_eq
  by_cases hnil : ds = []
  · rw [hnil, List.length_nil, eq_comm, List.length_eq_zero_iff] at hlength
    rw [hnil, hlength]
    rfl
  have hnil' : ds' ≠ [] := fun h => hnil (List.length_eq_zero_iff.1 (hlength.trans (by simp [h])))
  obtain ⟨p, hp⟩ := exists_ofDerivations db hnil
  obtain ⟨p', hp'⟩ := exists_ofDerivations db' hnil'
  obtain ⟨last, hlast, hsteps, houtput, hinput⟩ := ofDerivations_eq_ok hds hreads hatoms hp
  obtain ⟨last', hlast', hsteps', houtput', hinput'⟩ := ofDerivations_eq_ok hds' hreads' hatoms' hp'
  have hnodes := nodesAll_alike h
  have hsame : p.steps = p'.steps := by
    have hmap := map_eq_of_alike (fun _ _ => step?_eq_of_alike) (distinct_alike hnodes [])
    have heq := congrArg (List.filterMap id) hmap
    rw [List.filterMap_map, List.filterMap_map] at heq
    rw [hsteps, hsteps']
    exact heq
  have hout : p.output = p'.output := by
    have heq := congrArg List.getLast? (map_eq_of_alike (fun _ _ => home_eq_of_alike) h)
    rw [List.map_map, List.map_map, List.getLast?_map, List.getLast?_map, hlast, hlast'] at heq
    rw [houtput, houtput']
    exact Option.some.inj heq
  have hin : p.input = p'.input := by
    have heq := congrArg (List.findSome? id)
      (map_eq_of_alike (fun _ _ => input?_eq_of_alike) hnodes)
    rw [List.findSome?_map, List.findSome?_map] at heq
    rw [hinput, hinput', hout]
    exact congrArg (fun o => Option.getD o p'.output) heq
  rw [hp, hp']
  obtain ⟨steps, input, output⟩ := p
  dsimp only at hsame hin hout
  rw [hsame, hin, hout]

end Plan

end HornPlan
