/-
  HornPlan/Proofs/Search/Nesting.lean
  ===================================
  **What a limit on nesting bounds.**

  A search that has used up its room enters no further goal, so the goals that it enters
  nest no deeper than its limit.  The proofs that it hands out may nest deeper.  A kept
  proof is used again as it is, at whatever depth it is asked for, and its height is not
  looked at.

  This is the only way in which a proof outgrows the limit.  `Uses` tells of the kept
  proofs that a proof is built on, and of the goals that each of them is used below; the
  proof is within the limit exactly if all of these fit in (`search_height_le_iff`,
  `derive_nesting`).  What holds in any case is that no branch has more rules than there
  are heads of rules, since no atom is proved by way of itself.

  Specification, section D: what `max_depth` bounds.
-/
import HornPlan.Demo
import HornPlan.Proofs.Derivation.Forest
import HornPlan.Proofs.Results
import HornPlan.Proofs.Search.Agreement
import HornPlan.Proofs.Search.Completeness

namespace HornPlan

namespace Derivation

/-! ### Heights -/

mutual

/-- The largest number of rules on a branch. -/
def height : Derivation → Nat
  | ⟨_, _, kind, children⟩ => heights children + if kind = .inputFact then 0 else 1

def heights : List Derivation → Nat
  | [] => 0
  | d :: rest => max d.height (heights rest)

end

theorem height_eq (d : Derivation) :
    d.height = heights d.children + if d.kind = .inputFact then 0 else 1 := by
  cases d
  rfl

theorem heights_le_iff {ds : List Derivation} {n : Nat} :
    heights ds ≤ n ↔ ∀ d ∈ ds, d.height ≤ n := by
  induction ds with
  | nil => simp [heights]
  | cons d rest ih => simp [heights, ih]

theorem exists_height_eq {ds : List Derivation} (h : ds ≠ []) :
    ∃ d ∈ ds, d.height = heights ds := by
  induction ds with
  | nil => exact absurd rfl h
  | cons d rest ih =>
    by_cases hrest : rest = []
    · subst hrest
      exact ⟨d, by simp, by simp [heights]⟩
    · obtain ⟨e, he, heq⟩ := ih hrest
      rcases Nat.le_total (heights rest) d.height with hle | hle
      · exact ⟨d, by simp, by simp [heights, hle]⟩
      · exact ⟨e, by simp [he], by simp [heights, hle, heq]⟩

/-- How many nodes of a branch are proved by rules. -/
def rulesOn (branch : List Derivation) : Nat := branch.countP fun n => n.kind ≠ .inputFact

theorem rulesOn_cons (d : Derivation) (branch : List Derivation) :
    rulesOn (d :: branch) = rulesOn branch + if d.kind = .inputFact then 0 else 1 := by
  by_cases h : d.kind = .inputFact <;> simp [rulesOn, h]

theorem Branch.rulesOn_le {d : Derivation} {branch : List Derivation} (h : Branch d branch) :
    rulesOn branch ≤ d.height := by
  induction h with
  | @leaf d _ =>
    rw [rulesOn_cons, height_eq]
    simp [rulesOn]
  | @step d c branch hc _ ih =>
    have hle := heights_le_iff.1 (Nat.le_refl (heights d.children)) c hc
    rw [rulesOn_cons, height_eq]
    omega

theorem exists_branch (d : Derivation) : ∃ branch, d.Branch branch ∧ rulesOn branch = d.height := by
  induction d with
  | node atom clause kind children ih =>
    by_cases hnil : children = []
    · subst hnil
      refine ⟨_, .leaf rfl, ?_⟩
      rw [rulesOn_cons, height_eq]
      rfl
    · obtain ⟨c, hc, hheight⟩ := exists_height_eq hnil
      obtain ⟨branch, hbranch, hrules⟩ := ih c hc
      refine ⟨_, .step hc hbranch, ?_⟩
      rw [rulesOn_cons, height_eq, hrules, hheight]

theorem height_le_iff {d : Derivation} {n : Nat} :
    d.height ≤ n ↔ ∀ branch, d.Branch branch → rulesOn branch ≤ n := by
  constructor
  · intro h branch hbranch
    exact Nat.le_trans hbranch.rulesOn_le h
  · intro h
    obtain ⟨branch, hbranch, hrules⟩ := d.exists_branch
    exact hrules ▸ h branch hbranch

/-! ### The rule that succeeds, and what it asks for -/

section Attempts

variable (prove : Atom → Proven → Attempt Proven Derivation)

/-- What is kept when a rule is passed over, unless it succeeds or ends the search. -/
def passedOver (c : Clause) : Attempt Proven (List Derivation) → Option Proven
  | (.error (.tooDeep _), _) => none
  | (.error _, p) => some p
  | (.ok children, p) => if restsOnHeld c children then some p else none

/-- Of rules that are tried one after the other a certain one succeeds, after those before
    it have led from `p` to `p'`.  Its children end with `q` being kept. -/
inductive Turn : List (Nat × Clause) → Proven → Nat × Clause → Proven → List Derivation →
    Proven → Prop
  | now {rule : Nat × Clause} {rest : List (Nat × Clause)} {p q : Proven}
    {children : List Derivation} (hbody : proveAll prove rule.2.body p = (.ok children, q))
    (hheld : restsOnHeld rule.2 children = false) : Turn (rule :: rest) p rule p children q
  | later {first rule : Nat × Clause} {rest : List (Nat × Clause)} {p p₁ p' q : Proven}
    {children : List Derivation}
    (hfirst : passedOver first.2 (proveAll prove first.2.body p) = some p₁)
    (h : Turn rest p₁ rule p' children q) : Turn (first :: rest) p rule p' children q

variable {prove}

theorem proveAll_cons_eq_ok {a : Atom} {rest : List Atom} {p q : Proven} {ds : List Derivation} :
    proveAll prove (a :: rest) p = (.ok ds, q) ↔ ∃ d p' es, prove a p = (.ok d, p') ∧
      proveAll prove rest p' = (.ok es, q) ∧ ds = d :: es := by
  rw [proveAll]
  constructor
  · intro h
    rcases ha : prove a p with ⟨f | d, p'⟩
    · simp [ha] at h
    · rcases hrest : proveAll prove rest p' with ⟨f | es, q'⟩
      · simp [ha, hrest] at h
      · simp only [ha, hrest, Prod.mk.injEq, Except.ok.injEq] at h
        exact ⟨d, p', es, rfl, by rw [hrest, h.2], h.1.symm⟩
  · rintro ⟨d, p', es, ha, hrest, rfl⟩
    simp only [ha, hrest]

/-- Of a body that is proved, every atom is proved when it is asked for. -/
theorem exists_child {as bs : List Atom} {b : Atom} : ∀ {p q p' : Proven}
    {children ds : List Derivation}, proveAll prove (as ++ b :: bs) p = (.ok children, q) →
      proveAll prove as p = (.ok ds, p') → ∃ d q', prove b p' = (.ok d, q') ∧ d ∈ children := by
  induction as with
  | nil =>
    rintro p q _ children _ h ⟨⟩
    obtain ⟨d, p', es, hd, -, rfl⟩ := proveAll_cons_eq_ok.1 h
    exact ⟨d, p', hd, by simp⟩
  | cons a rest ih =>
    intro p q p' children ds h hds
    obtain ⟨d, p₁, es, hd, hes, rfl⟩ := proveAll_cons_eq_ok.1 h
    obtain ⟨d', p₂, es', hd', hes', rfl⟩ := proveAll_cons_eq_ok.1 hds
    cases hd.symm.trans hd'
    obtain ⟨e, q', he, hmem⟩ := ih hes hes'
    exact ⟨e, q', he, List.mem_cons_of_mem _ hmem⟩

/-- Every child has been found when some atom of the body was asked for. -/
theorem exists_asked {body : List Atom} : ∀ {p q : Proven} {children : List Derivation},
    proveAll prove body p = (.ok children, q) → ∀ d ∈ children, ∃ as b bs ds p' q',
      body = as ++ b :: bs ∧ proveAll prove as p = (.ok ds, p') ∧ prove b p' = (.ok d, q') := by
  induction body with
  | nil =>
    rintro p q children ⟨⟩ d hd
    cases hd
  | cons a rest ih =>
    intro p q children h d hd
    obtain ⟨e, p₁, es, he, hes, rfl⟩ := proveAll_cons_eq_ok.1 h
    rcases List.mem_cons.1 hd with rfl | hd
    · exact ⟨[], a, rest, [], p, p₁, rfl, rfl, he⟩
    · obtain ⟨as, b, bs, ds, p', q', rfl, hds, hb⟩ := ih hes d hd
      exact ⟨a :: as, b, bs, e :: ds, p', q', rfl, proveAll_cons_eq_ok.2 ⟨_, _, _, he, hds, rfl⟩, hb⟩

theorem turn_cons_iff {first rule : Nat × Clause} {rest : List (Nat × Clause)}
    {p p' q : Proven} {children : List Derivation} :
    Turn prove (first :: rest) p rule p' children q ↔
      (rule = first ∧ p' = p ∧ proveAll prove first.2.body p = (.ok children, q) ∧
        restsOnHeld first.2 children = false) ∨
      ∃ p₁, passedOver first.2 (proveAll prove first.2.body p) = some p₁ ∧
        Turn prove rest p₁ rule p' children q := by
  constructor
  · intro h
    cases h with
    | now hbody hheld => exact Or.inl ⟨rfl, rfl, hbody, hheld⟩
    | later hfirst h => exact Or.inr ⟨_, hfirst, h⟩
  · rintro (⟨rfl, rfl, hbody, hheld⟩ | ⟨p₁, hfirst, h⟩)
    · exact .now hbody hheld
    · exact .later hfirst h

theorem Turn.mem {rules : List (Nat × Clause)} {rule : Nat × Clause} {p p' q : Proven}
    {children : List Derivation} (h : Turn prove rules p rule p' children q) : rule ∈ rules := by
  induction h with
  | now _ _ => exact List.mem_cons_self
  | later _ _ ih => exact List.mem_cons_of_mem _ ih

theorem Turn.body {rules : List (Nat × Clause)} {rule : Nat × Clause} {p p' q : Proven}
    {children : List Derivation} (h : Turn prove rules p rule p' children q) :
    proveAll prove rule.2.body p' = (.ok children, q) := by
  induction h with
  | now hbody _ => exact hbody
  | later _ _ ih => exact ih

/-- **A goal is proved by the rule whose turn it is.** -/
theorem tryRules_eq_ok_iff {goal : Atom} {q : Proven} {d : Derivation}
    {rules : List (Nat × Clause)} : ∀ {setbacks : Setbacks} {p : Proven},
      tryRules prove goal rules setbacks p = (.ok d, q) ↔ ∃ rule p' children,
        Turn prove rules p rule p' children q ∧ d = ⟨goal, rule.1, rule.2.kind, children⟩ := by
  induction rules with
  | nil =>
    intro setbacks p
    constructor
    · intro h
      cases h
    · rintro ⟨rule, p', children, h, -⟩
      cases h
  | cons first rest ih =>
    obtain ⟨i, c⟩ := first
    intro setbacks p
    simp only [turn_cons_iff]
    rw [tryRules]
    rcases proveAll prove c.body p with ⟨(a | path | a) | children, p₁⟩
    · simp [passedOver, ih]
    · simp [passedOver, ih]
    · simp [passedOver]
    · dsimp only
      by_cases hheld : restsOnHeld c children = true
      · have hpass : passedOver c (.ok children, p₁) = some p₁ := if_pos hheld
        rw [if_pos hheld, ih]
        constructor
        · rintro ⟨rule, p', es, hturn, hd⟩
          exact ⟨rule, p', es, Or.inr ⟨p₁, hpass, hturn⟩, hd⟩
        · rintro ⟨rule, p', es, ⟨-, -, hbody, hfree⟩ | ⟨p₂, hpass', hturn⟩, hd⟩
          · cases hbody
            cases hheld.symm.trans hfree
          · cases hpass.symm.trans hpass'
            exact ⟨rule, p', es, hturn, hd⟩
      · have hpass : passedOver c (.ok children, p₁) = none := if_neg hheld
        rw [if_neg hheld]
        constructor
        · rintro ⟨⟩
          exact ⟨(i, c), p, children, Or.inl ⟨rfl, rfl, rfl, Bool.eq_false_iff.2 hheld⟩, rfl⟩
        · rintro ⟨rule, p', es, ⟨rfl, -, hbody, -⟩ | ⟨p₂, hpass', -⟩, rfl⟩
          · cases hbody
            rfl
          · cases hpass.symm.trans hpass'

end Attempts

/-! ### Kept proofs that are used again -/

/-- The proof that a search finds for a goal is built on a kept proof of a subgoal, which
    is asked for below a path. -/
inductive Uses (db : Database) : (room : Nat) → List Atom → Atom → Proven →
    List Atom → Derivation → Prop
  | kept {room : Nat} {path : List Atom} {goal : Atom} {p : Proven} {d : Derivation}
    (h : p.lookup goal = some d) : Uses db room path goal p path d
  | rule {room : Nat} {path path' as bs : List Atom} {goal b : Atom} {p p' p'' q : Proven}
    {rule : Nat × Clause} {children ds : List Derivation} {d : Derivation}
    (hnew : p.lookup goal = none) (hfact : db.fact? goal = none)
    (hturn : Turn (search db room (goal :: path)) (db.rulesFor goal) p rule p' children q)
    (hbody : rule.2.body = as ++ b :: bs)
    (has : proveAll (search db room (goal :: path)) as p' = (.ok ds, p''))
    (h : Uses db room (goal :: path) b p'' path' d) : Uses db (room + 1) path goal p path' d

/-- No branch of a genuine proof has more rules than there are heads of rules. -/
theorem Genuine.rulesOn_le {db : Database} {ds : List Derivation} (hds : Genuine db ds)
    {d : Derivation} (hd : d ∈ ds) {branch : List Derivation} (hbranch : d.Branch branch) :
    rulesOn branch ≤ db.ruleHeads.card := by
  have hnode : ∀ n ∈ d.nodes, n ∈ nodesAll ds := fun n hn => mem_nodesAll.2 ⟨d, hd, hn⟩
  have hnodup := hbranch.nodup_atoms fun n hn => hds.acyclic n (hnode n hn)
  let rules := branch.filter fun n => n.kind ≠ .inputFact
  have hrules : (rules.map atom).Nodup := hnodup.sublist (List.filter_sublist.map atom)
  have hle : (rules.map atom).length ≤ db.ruleHeads.card := by
    apply Database.length_path_le hrules
    intro a ha
    obtain ⟨n, hn, rfl⟩ := List.mem_map.1 ha
    obtain ⟨hn, hkind⟩ := List.mem_filter.1 hn
    have hmem := hnode n (hbranch.mem_nodes n hn)
    obtain ⟨c, hget, hhead, hckind, -⟩ := (hds.justified n hmem).clause
    have hrule : c.kind ≠ .inputFact := hckind ▸ of_decide_eq_true hkind
    exact Database.mem_ruleHeads.2 ⟨c, List.mem_of_getElem? hget, hrule, hhead⟩
  rwa [List.length_map, ← List.countP_eq_length_filter] at hle

section Uses

variable {db : Database} {room : Nat} {path path' : List Atom} {goal : Atom} {p q : Proven}
  {d e : Derivation}

theorem Uses.length_le (h : Uses db room path goal p path' e) :
    path'.length ≤ path.length + room := by
  induction h with
  | kept _ => omega
  | rule _ _ _ _ _ _ ih =>
    simp only [List.length_cons] at ih
    omega

theorem uses_of_lookup (h : p.lookup goal = some d) :
    Uses db room path goal p path' e ↔ path' = path ∧ e = d := by
  constructor
  · intro huse
    cases huse with
    | kept h' =>
      cases h.symm.trans h'
      exact ⟨rfl, rfl⟩
    | rule hnew => cases h.symm.trans hnew
  · rintro ⟨rfl, rfl⟩
    exact .kept h

theorem not_uses_of_fact (hnew : p.lookup goal = none) {i : Nat} (hfact : db.fact? goal = some i) :
    ¬ Uses db room path goal p path' e := by
  intro huse
  cases huse with
  | kept h => cases hnew.symm.trans h
  | rule _ hfact' => cases hfact.symm.trans hfact'

/-- **The proof of a goal fits into the room exactly if the kept proofs that it is built on
    fit into what is left of it.** -/
theorem search_height_le_iff (db : Database) : ∀ {room : Nat} {path : List Atom} {goal : Atom}
    {p q : Proven} {d : Derivation}, search db room path goal p = (.ok d, q) →
      (d.height ≤ room ↔ ∀ path' e, Uses db room path goal p path' e →
        path'.length + e.height ≤ path.length + room) := by
  intro room
  induction room using Nat.strongRecOn with
  | _ room ih =>
  intro path goal p q d
  apply search_cases (motive := fun res => res = (.ok d, q) → (d.height ≤ room ↔
    ∀ path' e, Uses db room path goal p path' e → path'.length + e.height ≤ path.length + room))
  case known =>
    rintro e he ⟨⟩
    simp only [uses_of_lookup he, and_imp, forall_eq_apply_imp_iff, forall_eq]
    omega
  case fact =>
    rintro i hnew hi ⟨⟩
    refine iff_of_true (by simp [height_eq, heights]) fun path' e huse => ?_
    exact absurd huse (not_uses_of_fact hnew hi)
  case cycle => exact fun _ _ _ h => nomatch h
  case full => exact fun _ _ _ _ h => nomatch h
  case failed => exact fun _ _ _ _ _ _ _ _ h => nomatch h
  case proved =>
    rintro r d q hnew hfact - rfl htry ⟨⟩
    obtain ⟨rule, p', children, hturn, rfl⟩ := tryRules_eq_ok_iff.1 htry
    have hkind : rule.2.kind ≠ .inputFact := (Database.mem_rulesFor.1 hturn.mem).2.1
    rw [height_eq, if_neg hkind, Nat.succ_le_succ_iff, heights_le_iff]
    constructor
    · intro hle path' e huse
      cases huse with
      | kept h => cases hnew.symm.trans h
      | rule _ _ hturn' hbody has huse =>
        -- the same rule succeeds, so the subgoal is proved by one of the children
        have hsame := htry.symm.trans (tryRules_eq_ok_iff.2 ⟨_, _, _, hturn', rfl⟩)
        simp only [Prod.mk.injEq, Except.ok.injEq, Derivation.mk.injEq] at hsame
        obtain ⟨⟨-, -, -, rfl⟩, -⟩ := hsame
        obtain ⟨c, q', hc, hmem⟩ := exists_child (hbody ▸ hturn'.body) has
        have hfits := (ih r (Nat.lt_succ_self r) hc).1 (hle c hmem) path' e huse
        simp only [List.length_cons] at hfits
        omega
    · intro hall c hc
      obtain ⟨as, b, bs, ds, p'', q', hbody, has, hb⟩ := exists_asked hturn.body c hc
      refine (ih r (Nat.lt_succ_self r) hb).2 fun path' e huse => ?_
      have hfits := hall path' e (.rule hnew hfact hturn hbody has huse)
      simp only [List.length_cons]
      omega

end Uses

end Derivation

/-! ### Sessions -/

namespace Session

open HornPlan.Derivation

/-- The proof of one of some tuples, when they are proved one after the other, is built on
    a kept proof of a subgoal, which is asked for below a path. -/
def Uses (s : Session) (ts : List Tuple) (path : List Atom) (e : Derivation) : Prop :=
  ∃ before t after, ts = before ++ t :: after ∧
    Derivation.Uses s.database s.maxDepth [] (.resource t) (deriveAll before s).2.memory.proven path e

theorem uses_cons_iff {s u : Session} {t : Tuple} {d : Derivation}
    (hp : s.prove (.resource t) = (.ok d, u)) (hu : u.Succeeds s) {rest : List Tuple}
    {path : List Atom} {e : Derivation} : s.Uses (t :: rest) path e ↔
      Derivation.Uses s.database s.maxDepth [] (.resource t) s.memory.proven path e ∨
        u.Uses rest path e := by
  constructor
  · rintro ⟨before, t', after, hsplit, huse⟩
    cases before with
    | nil =>
      cases hsplit
      exact Or.inl huse
    | cons t₀ before =>
      cases hsplit
      rw [deriveAll_cons_of_ok hp] at huse
      refine Or.inr ⟨before, t', after, rfl, ?_⟩
      rw [hu.database, hu.maxDepth]
      exact huse
  · rintro (huse | ⟨before, t', after, rfl, huse⟩)
    · exact ⟨[], t, rest, rfl, huse⟩
    · refine ⟨t :: before, t', after, rfl, ?_⟩
      rw [deriveAll_cons_of_ok hp, ← hu.database, ← hu.maxDepth]
      exact huse

theorem deriveAll_height_le_iff (ts : List Tuple) : ∀ {s : Session}, s.Settled → ∀ {ds},
    (deriveAll ts s).1 = .ok ds → ((∀ td ∈ ds, td.2.height ≤ s.maxDepth) ↔
      ∀ path e, s.Uses ts path e → path.length + e.height ≤ s.maxDepth) := by
  induction ts with
  | nil =>
    rintro s - ds ⟨⟩
    simp [Uses]
  | cons t rest ih =>
    intro s hs ds h
    obtain ⟨hnext, -⟩ := prove_succeeds hs (.resource t)
    rcases hp : s.prove (.resource t) with ⟨f | d, u⟩
    · rw [deriveAll, hp] at h
      cases h
    · rw [hp] at hnext
      rw [deriveAll_cons_of_ok hp] at h
      rcases hrest : (deriveAll rest u).1 with e | ds'
      · rw [hrest] at h
        cases h
      · rw [hrest] at h
        cases h
        rcases hr : search s.database s.maxDepth [] (.resource t) s.memory.proven with ⟨r, q⟩
        have hprove := hs.prove_eq hr
        rw [hp] at hprove
        cases hprove
        have hfirst := search_height_le_iff s.database hr
        have hothers := ih hnext.settled hrest
        rw [List.forall_mem_cons, hfirst, hothers]
        simp only [uses_cons_iff hp hnext, or_imp, forall_and, List.length_nil, Nat.zero_add]

theorem Settled.derive_within {s : Session} (hs : s.Settled) {ds : List (Tuple × Derivation)}
    (h : s.derive.1 = .ok ds) :
    ((∀ td ∈ ds, ∀ branch, td.2.Branch branch → rulesOn branch ≤ s.maxDepth) ↔
      ∀ path e, s.Uses s.database.outputs path e → path.length + e.height ≤ s.maxDepth) ∧
    (∀ path e, s.Uses s.database.outputs path e → path.length ≤ s.maxDepth) ∧
    ∀ td ∈ ds, ∀ branch, td.2.Branch branch → rulesOn branch ≤ s.database.ruleHeads.card := by
  refine ⟨?_, ?_, ?_⟩
  · have hiff := deriveAll_height_le_iff s.database.outputs hs h
    simp only [height_le_iff] at hiff
    exact hiff
  · rintro path e ⟨before, t, after, -, huse⟩
    simpa using huse.length_le
  · intro td htd branch hbranch
    exact (hs.deriveAll_genuine h).1.rulesOn_le (List.mem_map_of_mem htd) hbranch

/-- **What is derived is within the limit exactly if no kept proof is used where it does
    not fit**, whatever else has been asked before.  In any case the goals that are entered
    are within it, and no branch has more rules than there are heads of rules. -/
theorem derive_nesting (db : Database) (maxDepth : Nat) (requests : List Request)
    {ds : List (Tuple × Derivation)} :
    let s := (answers requests (start db maxDepth)).2
    s.derive.1 = .ok ds →
      ((∀ td ∈ ds, ∀ branch, td.2.Branch branch → rulesOn branch ≤ maxDepth) ↔
        ∀ path e, s.Uses db.outputs path e → path.length + e.height ≤ maxDepth) ∧
      (∀ path e, s.Uses db.outputs path e → path.length ≤ maxDepth) ∧
      ∀ td ∈ ds, ∀ branch, td.2.Branch branch → rulesOn branch ≤ db.ruleHeads.card := by
  intro s h
  obtain ⟨hnext, -⟩ := answers_succeed requests (settled_start db maxDepth)
  have hnesting := hnext.settled.derive_within h
  rw [hnext.database, hnext.maxDepth] at hnesting
  exact hnesting

end Session

/-! ### A paragraph that outgrows the limit -/

namespace Demo

theorem planner_maxDepth {limit : Nat} {p : Planner} (h : planner limit = .ok p) :
    p.maxDepth = limit := by
  unfold planner at h
  generalize registry = r at h
  generalize catalog = c at h
  rcases r with e | r
  · cases h
  · rcases c with e | c
    · cases h
    · cases h
      rfl

def heightsOf (q : Query) (limit : Nat) : Option (List Nat) := do
  let p ← (planner limit).toOption
  let db ← (q.compile p.registry p.catalog).toOption
  let ds ← (Session.start db p.maxDepth).derive.1.toOption
  return ds.map fun td => td.2.height

theorem exists_of_heightsOf {q : Query} {limit : Nat} {hs : List Nat}
    (h : heightsOf q limit = some hs) : ∃ p db ds, planner limit = .ok p ∧
      q.compile p.registry p.catalog = .ok db ∧
        (Session.start db p.maxDepth).derive.1 = .ok ds ∧ ds.map (fun td => td.2.height) = hs := by
  unfold heightsOf at h
  obtain ⟨p, hp, h⟩ := Option.bind_eq_some_iff.1 h
  obtain ⟨db, hdb, h⟩ := Option.bind_eq_some_iff.1 h
  obtain ⟨ds, hds, h⟩ := Option.bind_eq_some_iff.1 h
  exact ⟨p, db, ds, toOption_eq_some_iff.1 hp, toOption_eq_some_iff.1 hdb,
    toOption_eq_some_iff.1 hds, Option.some.inj h⟩

/-- A sentence and a paragraph about leeks. -/
def leekQuery : Query :=
  (Query.empty.withInput "topic" 1 [("topic", .text "leeks")]).withOutput "sentence" 1
    |>.withOutput "paragraph" 1

theorem heights_leekQuery : heightsOf leekQuery 3 = some [3, 4] := by decide +kernel

theorem exists_tall : ∃ p db ds, planner 3 = .ok p ∧
    leekQuery.compile p.registry p.catalog = .ok db ∧
      (Session.start db p.maxDepth).derive.1 = .ok ds ∧ ∃ td ∈ ds, td.2.height = 4 := by
  obtain ⟨p, db, ds, hp, hdb, hds, hheights⟩ := exists_of_heightsOf heights_leekQuery
  have hmem : 4 ∈ ds.map fun td => td.2.height := by simp [hheights]
  exact ⟨p, db, ds, hp, hdb, hds, List.mem_map.1 hmem⟩

/-- With a limit of 3 the paragraph is derived, and a branch of its proof has 4 rules: the
    proof for any sentence has been kept, and is used again a level deeper. -/
theorem leekQuery_exceeds_limit : ∃ p db ds, planner 3 = .ok p ∧
    leekQuery.compile p.registry p.catalog = .ok db ∧
      (Session.start db p.maxDepth).derive.1 = .ok ds ∧
        ∃ td ∈ ds, ∃ branch, td.2.Branch branch ∧ 3 < Derivation.rulesOn branch := by
  obtain ⟨p, db, ds, hp, hdb, hds, td, htd, hheight⟩ := exists_tall
  refine ⟨p, db, ds, hp, hdb, hds, td, htd, ?_⟩
  obtain ⟨branch, hbranch, hrules⟩ := td.2.exists_branch
  exact ⟨branch, hbranch, by omega⟩

end Demo

namespace Session

/-- So a kept proof has been used where it does not fit. -/
theorem derive_nesting_leekQuery : ∃ p db ds, Demo.planner 3 = .ok p ∧
    Demo.leekQuery.compile p.registry p.catalog = .ok db ∧ (start db 3).derive.1 = .ok ds ∧
      ∃ path e, (start db 3).Uses db.outputs path e ∧ path.length ≤ 3 ∧
        3 < path.length + e.height := by
  obtain ⟨p, db, ds, hp, hdb, hds, td, htd, hheight⟩ := Demo.exists_tall
  rw [Demo.planner_maxDepth hp] at hds
  refine ⟨p, db, ds, hp, hdb, hds, ?_⟩
  obtain ⟨hiff, hpath, -⟩ := derive_nesting db 3 [] hds
  by_contra hnone
  push Not at hnone
  have hall := hiff.2 fun path e huse => hnone path e huse (hpath path e huse)
  have hle := Derivation.height_le_iff.2 (hall td htd)
  omega

end Session

end HornPlan
