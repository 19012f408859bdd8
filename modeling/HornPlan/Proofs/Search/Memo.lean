/-
  HornPlan/Proofs/Search/Memo.lean
  ================================
  **What a search keeps is closed and well-founded.**

  The proofs that a search has found stay in its memory while other goals are still
  open, survive failures, and are used again for later goals.  Two facts carry this.

  * `Coherent`: every kept proof is justified by the database, each of its children
    is the kept proof of its atom, and no atom occurs below itself.
  * The goals of the path are not among the kept proofs (`Unproven`).  So the proof
    that is found for a goal cannot contain the goal, and may be kept.

  `search_sane` says that a search preserves both and forgets nothing.
-/
import HornPlan.Proofs.Database.Clauses
import HornPlan.Proofs.Derivation.Nodes
import HornPlan.Proofs.Lookup
import HornPlan.Proofs.Search.Trail

namespace HornPlan.Derivation

/-! ### Keeping what is proved -/

/-- Everything kept in `p` is kept in `q`. -/
def Extends (p q : Proven) : Prop := ∀ a d, p.lookup a = some d → q.lookup a = some d

theorem Extends.refl (p : Proven) : Extends p p := fun _ _ h => h

theorem Extends.trans {p q r : Proven} (hpq : Extends p q) (hqr : Extends q r) : Extends p r :=
  fun a d h => hqr a d (hpq a d h)

/-- A new proof takes nothing away. -/
theorem Extends.insert {p : Proven} {goal : Atom} (hnew : p.lookup goal = none) (d : Derivation) :
    Extends p ((goal, d) :: p) := by
  intro a e h
  have hne : a ≠ goal := by
    rintro rfl
    rw [hnew] at h
    cases h
  rw [lookup_insert, if_neg hne]
  exact h

/-- Attempts that preserve `I`, forget nothing, and keep the proof they find. -/
def Sane (I : Proven → Prop) (prove : Atom → Proven → Attempt Proven Derivation) : Prop :=
  ∀ a p r q, I p → prove a p = (r, q) →
    I q ∧ Extends p q ∧ ∀ d, r = .ok d → q.lookup a = some d

section Sane

variable {I : Proven → Prop} {prove : Atom → Proven → Attempt Proven Derivation}

theorem Sane.proveAll (h : Sane I prove) : ∀ as p r q, I p → proveAll prove as p = (r, q) →
    I q ∧ Extends p q ∧ ∀ ds, r = .ok ds → as.map (fun a => q.lookup a) = ds.map some := by
  intro as
  induction as with
  | nil =>
    rintro p r q hp ⟨⟩
    refine ⟨hp, Extends.refl p, ?_⟩
    intro ds hds
    injection hds with hds
    subst hds
    rfl
  | cons a rest ih =>
    intro p r q hp hr
    unfold Derivation.proveAll at hr
    rcases ha : prove a p with ⟨f | d, p'⟩
    · obtain ⟨hI, hE, -⟩ := h a p _ p' hp ha
      rw [ha] at hr
      cases hr
      refine ⟨hI, hE, ?_⟩
      intro ds hds
      cases hds
    · obtain ⟨hI, hE, hfind⟩ := h a p _ p' hp ha
      rw [ha] at hr
      dsimp only at hr
      rcases hrest : Derivation.proveAll prove rest p' with ⟨f | ds, q'⟩
      · obtain ⟨hI', hE', -⟩ := ih p' _ q' hI hrest
        rw [hrest] at hr
        cases hr
        refine ⟨hI', hE.trans hE', ?_⟩
        intro ds hds
        cases hds
      · obtain ⟨hI', hE', hall⟩ := ih p' _ q' hI hrest
        rw [hrest] at hr
        cases hr
        refine ⟨hI', hE.trans hE', ?_⟩
        intro es hes
        injection hes with hes
        subst hes
        rw [List.map_cons, List.map_cons, hall ds rfl, hE' a d (hfind d rfl)]

/-- What the rules of a goal yield is made by one of them, from kept proofs. -/
theorem Sane.tryRules (h : Sane I prove) (goal : Atom) : ∀ rules setbacks p r q, I p →
    tryRules prove goal rules setbacks p = (r, q) →
    I q ∧ Extends p q ∧ ∀ d, r = .ok d →
      ∃ rule ∈ rules, d = ⟨goal, rule.1, rule.2.kind, d.children⟩ ∧
        rule.2.body.map (fun a => q.lookup a) = d.children.map some ∧
        restsOnHeld rule.2 d.children = false := by
  intro rules
  induction rules with
  | nil =>
    rintro setbacks p r q hp ⟨⟩
    refine ⟨hp, Extends.refl p, ?_⟩
    intro d hd
    cases hd
  | cons rule rest ih =>
    intro setbacks p r q hp hr
    obtain ⟨i, c⟩ := rule
    -- a rule that fails leaves the goal to the rules behind it
    have hnext : ∀ setbacks p', I p' → Extends p p' →
        Derivation.tryRules prove goal rest setbacks p' = (r, q) →
        I q ∧ Extends p q ∧ ∀ d, r = .ok d →
          ∃ rule ∈ (i, c) :: rest, d = ⟨goal, rule.1, rule.2.kind, d.children⟩ ∧
            rule.2.body.map (fun a => q.lookup a) = d.children.map some ∧
            restsOnHeld rule.2 d.children = false := by
      intro setbacks p' hp' hpp' hrest
      obtain ⟨hI, hE, hok⟩ := ih setbacks p' r q hp' hrest
      refine ⟨hI, hpp'.trans hE, ?_⟩
      intro d hd
      obtain ⟨rule, hrule, hmade⟩ := hok d hd
      exact ⟨rule, List.mem_cons_of_mem _ hrule, hmade⟩
    unfold Derivation.tryRules at hr
    rcases hbody : Derivation.proveAll prove c.body p with ⟨f | children, p'⟩
    · obtain ⟨hI, hE, -⟩ := h.proveAll c.body p _ p' hp hbody
      rw [hbody] at hr
      rcases f with a | path | a
      · exact hnext _ p' hI hE hr
      · exact hnext _ p' hI hE hr
      · cases hr
        refine ⟨hI, hE, ?_⟩
        intro d hd
        cases hd
    · obtain ⟨hI, hE, hall⟩ := h.proveAll c.body p _ p' hp hbody
      rw [hbody] at hr
      dsimp only at hr
      split at hr
      · exact hnext _ p' hI hE hr
      · rename_i hheld
        cases hr
        refine ⟨hI, hE, ?_⟩
        intro d hd
        injection hd with hd
        subst hd
        exact ⟨(i, c), List.mem_cons_self, rfl, hall children rfl, Bool.eq_false_iff.2 hheld⟩

end Sane

/-! ### Coherent memories -/

/-- What the clause of a node says about it. -/
structure Justified (db : Database) (n : Derivation) : Prop where
  /-- The node proves the head of its clause and is of its kind.  Its children prove
      the body, except for a fact, which has none. -/
  clause : ∃ c, db.clauses[n.clause]? = some c ∧ c.head = n.atom ∧ c.kind = n.kind ∧
    (n.kind ≠ .inputFact → n.children.map atom = c.body)
  /-- A fact is the first one that states its atom. -/
  fact : n.kind = .inputFact → n.children = [] ∧
    ∀ j c, db.clauses[j]? = some c → Database.States c n.atom → n.clause ≤ j
  /-- What a fact states is not proved in another way. -/
  rule : n.kind ≠ .inputFact → db.fact? n.atom = none
  /-- An instance that is to be made does not rest on another one that is held. -/
  made : n.kind = .assignment ∨ n.kind = .completion →
    ∀ first, n.children.head? = some first → first.kind ≠ .generalization

/-- Kept proofs are justified, consist of kept proofs, and contain no atom below
    itself. -/
structure Coherent (db : Database) (p : Proven) : Prop where
  atom : ∀ {a d}, p.lookup a = some d → d.atom = a
  justified : ∀ {a d}, p.lookup a = some d → d.Justified db
  children : ∀ {a d}, p.lookup a = some d → ∀ c ∈ d.children, p.lookup c.atom = some c
  acyclic : ∀ {a d}, p.lookup a = some d → ∀ m : Derivation, m.Below d → m.atom ≠ a

namespace Coherent

variable {db : Database} {p : Proven} {a : Atom} {d : Derivation}

theorem empty (db : Database) : Coherent db [] where
  atom h := nomatch h
  justified h := nomatch h
  children h := nomatch h
  acyclic h := nomatch h

/-- Every node of a kept proof is the kept proof of its atom. -/
theorem lookup_node (h : Coherent db p) (hd : p.lookup a = some d) :
    ∀ n ∈ d.nodes, p.lookup n.atom = some n := by
  induction d generalizing a with
  | node atom clause kind children ih =>
    intro n hn
    rcases mem_nodes.1 hn with rfl | ⟨c, hc, hn⟩
    · rw [h.atom hd]
      exact hd
    · exact ih c hc (h.children hd c hc) n hn

/-- A proof of a new atom from kept proofs may be kept. -/
theorem insert (h : Coherent db p) (hnew : p.lookup d.atom = none) (hd : d.Justified db)
    (hchildren : ∀ c ∈ d.children, p.lookup c.atom = some c) :
    Coherent db ((d.atom, d) :: p) := by
  have hext : Extends p ((d.atom, d) :: p) := Extends.insert hnew d
  have hbelow : ∀ m : Derivation, m.Below d → m.atom ≠ d.atom := by
    rintro m ⟨c, hc, hm⟩ heq
    have hlookup := h.lookup_node (hchildren c hc) m hm
    rw [heq, hnew] at hlookup
    cases hlookup
  -- what is found is either the new proof or one of the old ones
  have hcases : ∀ {a e}, List.lookup a ((d.atom, d) :: p) = some e →
      (a = d.atom ∧ e = d) ∨ p.lookup a = some e := by
    intro a e he
    rw [lookup_insert] at he
    split at he
    · rename_i ha
      exact Or.inl ⟨ha, (Option.some.inj he).symm⟩
    · exact Or.inr he
  constructor
  · intro a e he
    rcases hcases he with ⟨rfl, rfl⟩ | he
    · rfl
    · exact h.atom he
  · intro a e he
    rcases hcases he with ⟨-, rfl⟩ | he
    · exact hd
    · exact h.justified he
  · intro a e he c hc
    rcases hcases he with ⟨-, rfl⟩ | he
    · exact hext _ _ (hchildren c hc)
    · exact hext _ _ (h.children he c hc)
  · intro a e he m hm
    rcases hcases he with ⟨rfl, rfl⟩ | he
    · exact hbelow m hm
    · exact h.acyclic he m hm

end Coherent

/-! ### One search -/

/-- The goals of the path are open: none is proved, and none is stated by a fact. -/
def Unproven (path : List Atom) (p : Proven) : Prop := ∀ g ∈ path, p.lookup g = none

/-- A coherent memory that does not prove the goals of a path. -/
def Open (db : Database) (path : List Atom) (p : Proven) : Prop := Coherent db p ∧ Unproven path p

/-- A goal that is entered has not been proved. -/
theorem Open.enter {db : Database} {path : List Atom} {p : Proven} {goal : Atom}
    (h : Open db path p) (hnew : p.lookup goal = none) : Open db (goal :: path) p :=
  ⟨h.1, List.forall_mem_cons.2 ⟨hnew, h.2⟩⟩

theorem Justified.ofFact {db : Database} {goal : Atom} {i : Nat} (h : db.fact? goal = some i) :
    Justified db ⟨goal, i, .inputFact, []⟩ := by
  obtain ⟨⟨c, hget, hkind, hhead⟩, hfirst⟩ := Database.fact?_eq_some h
  refine ⟨⟨c, hget, hhead, hkind, fun hk => absurd rfl hk⟩, fun _ => ⟨rfl, hfirst⟩,
    fun hk => absurd rfl hk, ?_⟩
  rintro (hk | hk) <;> cases hk

/-- A rule whose body is proved justifies its head, unless it rests on a held
    instance. -/
theorem Justified.ofRule {db : Database} {goal : Atom} {i : Nat} {c : Clause}
    {children : List Derivation} (hrule : (i, c) ∈ db.rulesFor goal)
    (hfact : db.fact? goal = none) (hbody : children.map atom = c.body)
    (hheld : restsOnHeld c children = false) : Justified db ⟨goal, i, c.kind, children⟩ := by
  obtain ⟨hget, hkind, hhead⟩ := Database.mem_rulesFor.1 hrule
  refine ⟨⟨c, hget, hhead, rfl, fun _ => hbody⟩, fun hk => absurd hk hkind, fun _ => hfact, ?_⟩
  intro hk first hfirst hgen
  have hheld' : restsOnHeld c children = true := by
    simp only [restsOnHeld, decide_eq_true_eq]
    refine ⟨hk, ?_⟩
    dsimp only at hfirst
    rw [hfirst]
    exact decide_eq_true hgen
  rw [hheld] at hheld'
  cases hheld'

theorem Open.insert {db : Database} {path : List Atom} {p : Proven} {goal : Atom} {d : Derivation}
    (h : Open db path p) (hnew : p.lookup goal = none) (hpath : goal ∉ path) (hatom : d.atom = goal)
    (hd : d.Justified db) (hchildren : ∀ c ∈ d.children, p.lookup c.atom = some c) :
    Open db path ((goal, d) :: p) := by
  subst hatom
  refine ⟨h.1.insert hnew hd hchildren, ?_⟩
  intro g hg
  have hne : g ≠ d.atom := by
    intro heq
    exact hpath (heq ▸ hg)
  rw [lookup_insert, if_neg hne]
  exact h.2 g hg

/-- Children that are kept proofs of the body of a clause prove it. -/
theorem Coherent.body {db : Database} {p : Proven} (h : Coherent db p) {as : List Atom}
    {ds : List Derivation} (hall : as.map (fun a => p.lookup a) = ds.map some) :
    ds.map Derivation.atom = as ∧ ∀ d ∈ ds, p.lookup d.atom = some d := by
  induction as generalizing ds with
  | nil =>
    rw [List.map_nil, eq_comm, List.map_eq_nil_iff] at hall
    subst hall
    exact ⟨rfl, fun d hd => nomatch hd⟩
  | cons a rest ih =>
    rcases ds with _ | ⟨d, ds⟩
    · cases hall
    · simp only [List.map_cons, List.cons.injEq] at hall
      obtain ⟨ha, hrest⟩ := hall
      obtain ⟨hatoms, hlookup⟩ := ih hrest
      have hatom : d.atom = a := h.atom ha
      refine ⟨by rw [List.map_cons, hatoms, hatom], ?_⟩
      intro e he
      rcases List.mem_cons.1 he with rfl | he
      · rw [hatom]
        exact ha
      · exact hlookup e he

/-- **A search keeps its memory coherent, forgets nothing, and proves no goal of its
    path.** -/
theorem search_sane (db : Database) : ∀ room path, (∀ g ∈ path, db.fact? g = none) →
    Sane (Open db path) (search db room path) := by
  intro room
  induction room using Nat.strongRecOn with
  | _ room ih =>
  intro path hfacts goal p r q hp
  -- what the rules of the goal preserve, below the path that the goal extends
  have hrules : ∀ k, room = k + 1 → p.lookup goal = none → db.fact? goal = none → ∀ r q,
      tryRules (search db k (goal :: path)) goal (db.rulesFor goal) .none p = (r, q) →
      Open db (goal :: path) q ∧ Extends p q ∧ ∀ d, r = .ok d →
        ∃ rule ∈ db.rulesFor goal, d = ⟨goal, rule.1, rule.2.kind, d.children⟩ ∧
          rule.2.body.map (fun a => q.lookup a) = d.children.map some ∧
          restsOnHeld rule.2 d.children = false := by
    rintro k rfl hnew hfact r q hr
    have hfacts' : ∀ g ∈ goal :: path, db.fact? g = none := List.forall_mem_cons.2 ⟨hfact, hfacts⟩
    exact (ih k (Nat.lt_succ_self k) (goal :: path) hfacts').tryRules goal _ _ p r q
      (hp.enter hnew) hr
  have hshrink : ∀ q, Open db (goal :: path) q → Open db path q := by
    intro q hq
    exact ⟨hq.1, fun g hg => hq.2 g (List.mem_cons_of_mem _ hg)⟩
  apply search_cases (motive := fun res => res = (r, q) →
    Open db path q ∧ Extends p q ∧ ∀ d, r = .ok d → q.lookup goal = some d)
  case known =>
    rintro d hd ⟨⟩
    refine ⟨hp, Extends.refl p, ?_⟩
    intro e he
    cases he
    exact hd
  case fact =>
    rintro i hnew hi ⟨⟩
    have hpath : goal ∉ path := by
      intro hmem
      rw [hfacts goal hmem] at hi
      cases hi
    refine ⟨hp.insert hnew hpath rfl (Justified.ofFact hi) (fun c hc => nomatch hc),
      Extends.insert hnew _, ?_⟩
    intro e he
    cases he
    exact List.lookup_cons_self
  case cycle =>
    rintro _ _ _ ⟨⟩
    exact ⟨hp, Extends.refl p, fun e he => nomatch he⟩
  case full =>
    rintro _ _ _ _ ⟨⟩
    exact ⟨hp, Extends.refl p, fun e he => nomatch he⟩
  case proved =>
    rintro k d q hnew hfact hpath hk hr ⟨⟩
    obtain ⟨hopen, hext, hmade⟩ := hrules k hk hnew hfact _ q hr
    obtain ⟨rule, hrule, hd, hall, hheld⟩ := hmade d rfl
    obtain ⟨hbody, hchildren⟩ := hopen.1.body hall
    have hjust : Justified db d := by
      rw [hd]
      exact Justified.ofRule hrule hfact hbody hheld
    have hnew' : q.lookup goal = none := hopen.2 goal List.mem_cons_self
    have hatom : d.atom = goal := by rw [hd]
    refine ⟨(hshrink q hopen).insert hnew' hpath hatom hjust hchildren,
      hext.trans (Extends.insert hnew' d), ?_⟩
    intro e he
    cases he
    exact List.lookup_cons_self
  case failed =>
    rintro k f q hnew hfact _ hk hr ⟨⟩
    obtain ⟨hopen, hext, -⟩ := hrules k hk hnew hfact _ q hr
    exact ⟨hshrink q hopen, hext, fun e he => nomatch he⟩

end HornPlan.Derivation
