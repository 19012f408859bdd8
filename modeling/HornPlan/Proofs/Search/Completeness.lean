/-
  HornPlan/Proofs/Search/Completeness.lean
  ========================================
  **When a search finds a proof.**

  `Follows` is what follows from the facts of a database by those of its rules that
  are allowed.  A search does not find a proof of all that follows.  A goal does not
  count below itself; this is no loss, since what follows at all follows without a
  detour through itself (`Follows.avoiding`).  But a proof of a generalization, once
  kept, is kept for good, and refused to the rules that ask for a made instance.

  A `Guide` takes account of this.  It names the atoms of which such a rule may ask,
  and promises that wherever the search enters one of them, a rule that is tried before
  the generalizations succeeds.  Then no generalization is ever kept for it, and the
  search finds a proof of all that follows by the allowed rules (`search_finds`), given
  more room than there are heads of rules.
-/
import HornPlan.Proofs.Search.Requests
import Mathlib.Data.Finset.Card
import Mathlib.Data.Finset.Dedup

namespace HornPlan

/-! ### What follows -/

/-- What follows from the facts of a database by the rules that are allowed. -/
inductive Follows (db : Database) (allowed : Clause → Prop) : Atom → Prop
  | fact {a : Atom} (h : db.fact? a ≠ none) : Follows db allowed a
  | rule {c : Clause} (hc : c ∈ db.clauses) (hkind : c.kind ≠ .inputFact) (hallowed : allowed c)
    (hbody : ∀ a ∈ c.body, Follows db allowed a) : Follows db allowed c.head

/-- The allowed rules whose head is not on a path. -/
def Avoiding (allowed : Clause → Prop) (path : List Atom) (c : Clause) : Prop :=
  allowed c ∧ c.head ∉ path

namespace Follows

variable {db : Database} {allowed allowed' : Clause → Prop} {a : Atom}

theorem mono (h : Follows db allowed a) (hsub : ∀ c, allowed c → allowed' c) :
    Follows db allowed' a := by
  induction h with
  | fact hfact => exact .fact hfact
  | rule hc hkind hallowed _ ih => exact .rule hc hkind (hsub _ hallowed) ih

/-- **What follows by a rule follows without a detour**: by a rule whose body follows
    by rules for other atoms. -/
theorem avoiding (h : Follows db allowed a) (hfact : db.fact? a = none) :
    ∃ c ∈ db.clauses, c.kind ≠ .inputFact ∧ allowed c ∧ c.head = a ∧
      ∀ b ∈ c.body, Follows db (Avoiding allowed [a]) b := by
  -- whatever follows does so without the atom, unless there is such a rule
  have hall : ∀ b, Follows db allowed b → Follows db (Avoiding allowed [a]) b ∨
      ∃ c ∈ db.clauses, c.kind ≠ .inputFact ∧ allowed c ∧ c.head = a ∧
        ∀ b ∈ c.body, Follows db (Avoiding allowed [a]) b := by
    intro b hb
    induction hb with
    | fact hfact => exact Or.inl (.fact hfact)
    | @rule c hc hkind hallowed _ ih =>
      by_cases hbody : ∀ b ∈ c.body, Follows db (Avoiding allowed [a]) b
      · by_cases hhead : c.head = a
        · exact Or.inr ⟨c, hc, hkind, hallowed, hhead, hbody⟩
        · exact Or.inl (.rule hc hkind ⟨hallowed, by simpa using hhead⟩ hbody)
      · push Not at hbody
        obtain ⟨b, hb, hnot⟩ := hbody
        exact Or.inr ((ih b hb).resolve_left hnot)
  rcases hall a h with h | h
  · cases h with
    | fact h => exact absurd hfact h
    | @rule c _ _ hallowed _ => exact absurd List.mem_cons_self hallowed.2
  · exact h

/-- So does what follows by rules for atoms off a path: the atom joins the path. -/
theorem avoiding_path {path : List Atom} (h : Follows db (Avoiding allowed path) a)
    (hfact : db.fact? a = none) :
    ∃ c ∈ db.clauses, c.kind ≠ .inputFact ∧ allowed c ∧ c.head = a ∧
      ∀ b ∈ c.body, Follows db (Avoiding allowed (a :: path)) b := by
  obtain ⟨c, hc, hkind, hallowed, hhead, hbody⟩ := h.avoiding hfact
  refine ⟨c, hc, hkind, hallowed.1, hhead, ?_⟩
  intro b hb
  apply (hbody b hb).mono
  intro c' hc'
  refine ⟨hc'.1.1, ?_⟩
  intro hmem
  rcases List.mem_cons.1 hmem with hmem | hmem
  · exact hc'.2 (hmem ▸ List.mem_cons_self)
  · exact hc'.1.2 hmem

end Follows

/-! ### Room -/

/-- The atoms that head some clause. -/
def Database.heads (db : Database) : Finset Atom := (db.clauses.map Clause.head).toFinset

/-- The atoms that head some rule. -/
def Database.ruleHeads (db : Database) : Finset Atom :=
  ((db.clauses.filter fun c => c.kind ≠ .inputFact).map Clause.head).toFinset

namespace Database

variable {db : Database} {a : Atom}

theorem mem_ruleHeads : a ∈ db.ruleHeads ↔ ∃ c ∈ db.clauses, c.kind ≠ .inputFact ∧ c.head = a := by
  simp only [ruleHeads, List.mem_toFinset, List.mem_map, List.mem_filter, decide_eq_true_eq,
    and_assoc]

theorem card_ruleHeads_le (db : Database) : db.ruleHeads.card ≤ db.heads.card := by
  apply Finset.card_le_card
  intro a ha
  obtain ⟨c, hc, -, rfl⟩ := mem_ruleHeads.1 ha
  exact List.mem_toFinset.2 (List.mem_map_of_mem hc)

/-- A path without repetitions of goals with rules is not longer than there are heads
    of rules. -/
theorem length_path_le {path : List Atom} (hnodup : path.Nodup)
    (hpath : ∀ a ∈ path, a ∈ db.ruleHeads) : path.length ≤ db.ruleHeads.card := by
  rw [← List.toFinset_card_of_nodup hnodup]
  exact Finset.card_le_card fun a ha => hpath a (List.mem_toFinset.1 ha)

end Database

namespace Derivation

/-! ### One rule after the other -/

/-- Attempts on some goals that preserve `I`, do not run out of room, and succeed where
    something follows. -/
def Finds (I : Proven → Prop) (goals follows : Atom → Prop)
    (prove : Atom → Proven → Attempt Proven Derivation) : Prop :=
  ∀ a, goals a → ∀ p r q, I p → prove a p = (r, q) →
    I q ∧ (∀ b, r ≠ .error (.tooDeep b)) ∧ (follows a → ∃ d, r = .ok d)

theorem Setbacks.failure_ne_tooDeep (s : Setbacks) (goal a : Atom) :
    s.failure goal ≠ .tooDeep a := by
  unfold Setbacks.failure
  split <;> simp

section Finds

variable {I : Proven → Prop} {goals follows : Atom → Prop}
  {prove : Atom → Proven → Attempt Proven Derivation}

theorem Finds.proveAll (h : Finds I goals follows prove) : ∀ as p r q, (∀ a ∈ as, goals a) → I p →
    proveAll prove as p = (r, q) →
      I q ∧ (∀ b, r ≠ .error (.tooDeep b)) ∧ ((∀ a ∈ as, follows a) → ∃ ds, r = .ok ds) := by
  intro as
  induction as with
  | nil =>
    rintro p r q - hp ⟨⟩
    exact ⟨hp, by simp, fun _ => ⟨[], rfl⟩⟩
  | cons a rest ih =>
    intro p r q hgoals hp hr
    unfold Derivation.proveAll at hr
    rcases ha : prove a p with ⟨f | d, p'⟩
    · obtain ⟨hI, hroom, hfind⟩ := h a (hgoals a List.mem_cons_self) p _ p' hp ha
      rw [ha] at hr
      cases hr
      refine ⟨hI, fun b hb => hroom b ?_, ?_⟩
      · cases hb
        rfl
      · intro hall
        obtain ⟨d, hd⟩ := hfind (hall a List.mem_cons_self)
        cases hd
    · obtain ⟨hI, -, -⟩ := h a (hgoals a List.mem_cons_self) p _ p' hp ha
      rw [ha] at hr
      dsimp only at hr
      rcases hrest : Derivation.proveAll prove rest p' with ⟨f | ds, q'⟩
      · obtain ⟨hI', hroom, hfind⟩ :=
          ih p' _ q' (fun b hb => hgoals b (List.mem_cons_of_mem _ hb)) hI hrest
        rw [hrest] at hr
        cases hr
        refine ⟨hI', fun b hb => hroom b ?_, ?_⟩
        · cases hb
          rfl
        · intro hall
          obtain ⟨ds, hds⟩ := hfind fun b hb => hall b (List.mem_cons_of_mem _ hb)
          cases hds
      · obtain ⟨hI', -, -⟩ :=
          ih p' _ q' (fun b hb => hgoals b (List.mem_cons_of_mem _ hb)) hI hrest
        rw [hrest] at hr
        cases hr
        exact ⟨hI', by simp, fun _ => ⟨_, rfl⟩⟩

/-- A rule whose body follows, and which does not rest on a held instance once its body
    is proved, makes the goal succeed, by itself or a rule that is preferred to it. -/
theorem Finds.tryRules (h : Finds I goals follows prove) (goal : Atom) (good : Clause → Prop)
    (hgood : ∀ c children p p', good c → (∀ b ∈ c.body, goals b) → I p →
      Derivation.proveAll prove c.body p = (.ok children, p') → restsOnHeld c children = false) :
    ∀ rules setbacks p r q, (∀ rule ∈ rules, ∀ b ∈ rule.2.body, goals b) →
      rules.Pairwise Database.Preferred → I p → tryRules prove goal rules setbacks p = (r, q) →
      I q ∧ (∀ b, r ≠ .error (.tooDeep b)) ∧
        ∀ rule ∈ rules, good rule.2 → (∀ b ∈ rule.2.body, follows b) →
          ∃ first children, Database.Preferred first rule ∧
            r = .ok ⟨goal, first.1, first.2.kind, children⟩ := by
  intro rules
  induction rules with
  | nil =>
    rintro setbacks p r q - - hp ⟨⟩
    exact ⟨hp, by simp [Setbacks.failure_ne_tooDeep], by simp⟩
  | cons rule rest ih =>
    obtain ⟨i, c⟩ := rule
    intro setbacks p r q hgoals hsorted hp hr
    obtain ⟨hle, hsorted⟩ := List.pairwise_cons.1 hsorted
    -- a rule that fails is not the one that is promised to succeed
    have hnext : ∀ setbacks p', I p' → Derivation.tryRules prove goal rest setbacks p' = (r, q) →
        (good c → (∀ b ∈ c.body, follows b) → False) →
          I q ∧ (∀ b, r ≠ .error (.tooDeep b)) ∧
            ∀ rule ∈ (i, c) :: rest, good rule.2 → (∀ b ∈ rule.2.body, follows b) →
              ∃ first children, Database.Preferred first rule ∧
                r = .ok ⟨goal, first.1, first.2.kind, children⟩ := by
      intro setbacks p' hp' hrest hfail
      obtain ⟨hI, hroom, hfind⟩ := ih setbacks p' r q
        (fun rule hrule => hgoals rule (List.mem_cons_of_mem _ hrule)) hsorted hp' hrest
      refine ⟨hI, hroom, ?_⟩
      intro rule hrule hg hbody
      rcases List.mem_cons.1 hrule with rfl | hrule
      · exact absurd hbody fun hb => hfail hg hb
      · exact hfind rule hrule hg hbody
    unfold Derivation.tryRules at hr
    rcases hbody : Derivation.proveAll prove c.body p with ⟨f | children, p'⟩
    · obtain ⟨hI, hroom, hfind⟩ :=
        h.proveAll c.body p _ p' (hgoals (i, c) List.mem_cons_self) hp hbody
      have hfail : good c → (∀ b ∈ c.body, follows b) → False := by
        intro _ hall
        obtain ⟨ds, hds⟩ := hfind hall
        cases hds
      rw [hbody] at hr
      rcases f with a | path | a
      · exact hnext _ p' hI hr hfail
      · exact hnext _ p' hI hr hfail
      · exact absurd rfl (hroom a)
    · obtain ⟨hI, -, -⟩ := h.proveAll c.body p _ p' (hgoals (i, c) List.mem_cons_self) hp hbody
      rw [hbody] at hr
      dsimp only at hr
      split at hr
      · rename_i hheld
        apply hnext _ p' hI hr
        intro hg _
        rw [hgood c children p p' hg (hgoals (i, c) List.mem_cons_self) hp hbody] at hheld
        cases hheld
      · cases hr
        refine ⟨hI, by simp, ?_⟩
        intro rule hrule _ _
        refine ⟨(i, c), children, ?_, rfl⟩
        rcases List.mem_cons.1 hrule with rfl | hrule
        · exact .refl _
        · exact hle rule hrule

end Finds

/-! ### Guides -/

/-- What a search is expected to do with some rules. -/
structure Guide where
  /-- The rules that proofs are to be found by. -/
  allowed : Clause → Prop
  /-- The atoms that are never proved by a generalization. -/
  made : Atom → Prop
  /-- The goals that come up below a path. -/
  reached : List Atom → Atom → Prop

/-- Expectations that the search meets. -/
structure Guide.Valid (g : Guide) (db : Database) : Prop where
  /-- The goals that come up are closed under the bodies of rules. -/
  step : ∀ {path goal}, g.reached path goal → db.fact? goal = none → goal ∉ path →
    ∀ c ∈ db.clauses, c.kind ≠ .inputFact → c.head = goal → ∀ b ∈ c.body, g.reached (goal :: path) b
  /-- What a rule asks to be made is. -/
  asks : ∀ c ∈ db.clauses, g.allowed c → c.kind = .assignment ∨ c.kind = .completion →
    ∀ b, c.body.head? = some b → g.made b
  /-- An atom that is to be made has no generalization, or a rule that comes before. -/
  makes : ∀ {path goal}, g.reached path goal → g.made goal → db.fact? goal = none → goal ∉ path →
    (∀ c ∈ db.clauses, c.head = goal → c.kind ≠ .generalization) ∨
      ∃ c ∈ db.clauses, c.kind ≠ .inputFact ∧ c.kind.rank < 4 ∧ g.allowed c ∧ c.head = goal ∧
        ∀ b ∈ c.body, Follows db (Avoiding g.allowed (goal :: path)) b

/-- No generalization is kept for an atom that is to be made. -/
def Guide.Kept (g : Guide) (p : Proven) : Prop :=
  ∀ a d, g.made a → p.lookup a = some d → d.kind ≠ .generalization

theorem Guide.Kept.insert {g : Guide} {p : Proven} (h : g.Kept p) {goal : Atom} {d : Derivation}
    (hd : g.made goal → d.kind ≠ .generalization) : g.Kept ((goal, d) :: p) := by
  intro a e ha he
  rw [lookup_insert] at he
  split at he
  · rename_i heq
    cases he
    exact hd (heq ▸ ha)
  · exact h a e ha he

/-! ### One search -/

section Search

variable {db : Database} {g : Guide} (hg : g.Valid db)
include hg

/-- An allowed rule does not rest on a held instance, once its body is proved. -/
theorem Guide.Valid.restsOnHeld_eq {c : Clause} (hc : c ∈ db.clauses) (hallowed : g.allowed c)
    {children : List Derivation} {p : Proven} (hp : g.Kept p)
    (hbody : c.body.map (fun a => p.lookup a) = children.map some) :
    restsOnHeld c children = false := by
  apply Bool.eq_false_iff.2
  intro hheld
  obtain ⟨hkind, hfirst⟩ := of_decide_eq_true hheld
  cases children with
  | nil => cases hfirst
  | cons first rest =>
    obtain ⟨b, bs, hbs, hlookup, -⟩ := List.map_eq_cons_iff.1 hbody
    have hmade : g.made b := hg.asks c hc hallowed hkind b (by rw [hbs]; rfl)
    exact hp b first hmade hlookup (of_decide_eq_true hfirst)

/-- What is to be made is not proved by a generalization, if its proof is by a rule for
    it, and no rule of lower rank that should succeed has been passed over. -/
theorem Guide.Valid.ne_generalization {path : List Atom} {goal : Atom} {d : Derivation}
    {rule : Clause} (hreached : g.reached path goal) (hfact : db.fact? goal = none)
    (hpath : goal ∉ path) (hrule : rule ∈ db.clauses) (hhead : rule.head = goal)
    (hkind : d.kind = rule.kind)
    (hbest : ∀ c ∈ db.clauses, c.kind ≠ .inputFact → c.head = goal → g.allowed c →
      (∀ b ∈ c.body, Follows db (Avoiding g.allowed (goal :: path)) b) →
        d.kind.rank ≤ c.kind.rank)
    (hmade : g.made goal) : d.kind ≠ .generalization := by
  intro hgen
  rcases hg.makes hreached hmade hfact hpath with
    hnone | ⟨c, hc, hkind', hrank, hallowed, hhead', hbody⟩
  · exact hnone rule hrule hhead (hkind.symm.trans hgen)
  · have hle := hbest c hc hkind' hhead' hallowed hbody
    rw [hgen] at hle
    exact absurd hrank (Nat.not_lt.2 hle)

/-- What the rules of a goal yield, if the search below it does what it should. -/
theorem tryRules_finds {room : Nat} {path : List Atom} {goal : Atom} {p q : Proven}
    {r : Except Failure Derivation} (hfacts : ∀ a ∈ goal :: path, db.fact? a = none)
    (hreached : g.reached path goal) (hpath : goal ∉ path)
    (hp : Open db (goal :: path) p ∧ g.Kept p)
    (hfinds : goal ∈ db.ruleHeads → Finds (fun p => Open db (goal :: path) p ∧ g.Kept p)
      (g.reached (goal :: path)) (Follows db (Avoiding g.allowed (goal :: path)))
      (search db room (goal :: path)))
    (hr : tryRules (search db room (goal :: path)) goal (db.rulesFor goal) .none p = (r, q)) :
    g.Kept q ∧ (∀ b, r ≠ .error (.tooDeep b)) ∧
      ∀ rule ∈ db.rulesFor goal, g.allowed rule.2 →
        (∀ b ∈ rule.2.body, Follows db (Avoiding g.allowed (goal :: path)) b) →
          ∃ first children, Database.Preferred first rule ∧
            r = .ok ⟨goal, first.1, first.2.kind, children⟩ := by
  by_cases hheads : goal ∈ db.ruleHeads
  · have hbody : ∀ rule ∈ db.rulesFor goal, ∀ b ∈ rule.2.body, g.reached (goal :: path) b := by
      intro rule hrule b hb
      obtain ⟨hget, hkind, hhead⟩ := Database.mem_rulesFor.1 hrule
      exact hg.step hreached (hfacts goal List.mem_cons_self) hpath rule.2
        (List.mem_of_getElem? hget) hkind hhead b hb
    obtain ⟨hI, hroom, hfind⟩ := (hfinds hheads).tryRules goal
      (fun c => c ∈ db.clauses ∧ g.allowed c) (fun c children p p' hc hbody hp hr => by
        obtain ⟨⟨-, hkept⟩, -⟩ := (hfinds hheads).proveAll c.body p _ p' hbody hp hr
        obtain ⟨-, -, hlookup⟩ :=
          (search_sane db room (goal :: path) hfacts).proveAll c.body p _ p' hp.1 hr
        exact hg.restsOnHeld_eq hc.1 hc.2 hkept (hlookup children rfl))
      (db.rulesFor goal) .none p r q hbody (db.rulesFor_sorted goal) hp hr
    refine ⟨hI.2, hroom, ?_⟩
    intro rule hrule hallowed hfollows
    have hmem := List.mem_of_getElem? (Database.mem_rulesFor.1 hrule).1
    exact hfind rule hrule ⟨hmem, hallowed⟩ hfollows
  · -- without rules nothing is tried
    have hnone : db.rulesFor goal = [] := by
      rw [List.eq_nil_iff_forall_not_mem]
      rintro ⟨i, c⟩ hrule
      obtain ⟨hget, hkind, hhead⟩ := Database.mem_rulesFor.1 hrule
      exact hheads (Database.mem_ruleHeads.2 ⟨c, List.mem_of_getElem? hget, hkind, hhead⟩)
    rw [hnone] at hr
    cases hr
    refine ⟨hp.2, by simp [Setbacks.failure_ne_tooDeep], ?_⟩
    intro rule hrule
    rw [hnone] at hrule
    cases hrule

/-- **A search finds a proof of all that follows by the allowed rules**, given more room
    than there are heads of rules. -/
theorem search_finds : ∀ room path, (∀ a ∈ path, db.fact? a = none) → path.Nodup →
    (∀ a ∈ path, a ∈ db.ruleHeads) → db.ruleHeads.card < room + path.length →
      Finds (fun p => Open db path p ∧ g.Kept p) (g.reached path)
        (Follows db (Avoiding g.allowed path)) (search db room path) := by
  intro room
  induction room with
  | zero =>
    intro path _ hnodup hheads hroom
    have hle := Database.length_path_le hnodup hheads
    omega
  | succ room ih =>
    intro path hfacts hnodup hheads hroom goal hreached p r q hp hr
    obtain ⟨hopen, -, -⟩ := search_sane db (room + 1) path hfacts goal p r q hp.1 hr
    -- what the rules of the goal yield
    have hrules : p.lookup goal = none → db.fact? goal = none → goal ∉ path → ∀ r q,
        tryRules (search db room (goal :: path)) goal (db.rulesFor goal) .none p = (r, q) →
          g.Kept q ∧ (∀ b, r ≠ .error (.tooDeep b)) ∧
            ∀ rule ∈ db.rulesFor goal, g.allowed rule.2 →
              (∀ b ∈ rule.2.body, Follows db (Avoiding g.allowed (goal :: path)) b) →
                ∃ first children, Database.Preferred first rule ∧
                  r = .ok ⟨goal, first.1, first.2.kind, children⟩ := by
      intro hnew hfact hpath r q hr
      have hfacts' : ∀ a ∈ goal :: path, db.fact? a = none :=
        List.forall_mem_cons.2 ⟨hfact, hfacts⟩
      refine tryRules_finds hg hfacts' hreached hpath ⟨hp.1.enter hnew, hp.2⟩ (fun hhead => ?_) hr
      refine ih (goal :: path) hfacts' (List.nodup_cons.2 ⟨hpath, hnodup⟩)
        (List.forall_mem_cons.2 ⟨hhead, hheads⟩) ?_
      rw [List.length_cons]
      omega
    suffices hsuff : g.Kept q ∧ (∀ b, r ≠ .error (.tooDeep b)) ∧
        (Follows db (Avoiding g.allowed path) goal → ∃ d, r = .ok d) from
      ⟨⟨hopen, hsuff.1⟩, hsuff.2⟩
    clear hopen
    revert hr
    apply search_cases (motive := fun res => res = (r, q) →
      g.Kept q ∧ (∀ b, r ≠ .error (.tooDeep b)) ∧
        (Follows db (Avoiding g.allowed path) goal → ∃ d, r = .ok d))
    case known =>
      rintro d - ⟨⟩
      exact ⟨hp.2, by simp, fun _ => ⟨d, rfl⟩⟩
    case fact =>
      rintro i - - ⟨⟩
      exact ⟨hp.2.insert fun _ hk => (nomatch hk), by simp, fun _ => ⟨_, rfl⟩⟩
    case cycle =>
      rintro - hfact hpath ⟨⟩
      refine ⟨hp.2, by simp, ?_⟩
      intro hfollows
      cases hfollows with
      | fact h => exact absurd hfact h
      | rule _ _ hallowed _ => exact absurd hpath hallowed.2
    case full =>
      intro _ _ _ hzero
      omega
    case proved =>
      rintro k d q' hnew hfact hpath hk htry ⟨⟩
      cases hk
      obtain ⟨hkept, -, hbest⟩ := hrules hnew hfact hpath _ _ htry
      have hfacts' : ∀ a ∈ goal :: path, db.fact? a = none :=
        List.forall_mem_cons.2 ⟨hfact, hfacts⟩
      obtain ⟨-, -, hfrom⟩ := (search_sane db room (goal :: path) hfacts').tryRules goal _ _ p _ _
        (hp.1.enter hnew) htry
      obtain ⟨rule, hrule, hd, -⟩ := hfrom d rfl
      obtain ⟨hget, -, hhead⟩ := Database.mem_rulesFor.1 hrule
      refine ⟨hkept.insert ?_, by simp, fun _ => ⟨d, rfl⟩⟩
      apply hg.ne_generalization hreached hfact hpath (List.mem_of_getElem? hget) hhead
      · rw [hd]
      · intro c hc hkind hhead hallowed hbody
        obtain ⟨i, hmem⟩ := Database.exists_mem_rulesFor hc hkind hhead
        obtain ⟨first, children, hfirst, hd'⟩ := hbest (i, c) hmem hallowed hbody
        cases hd'
        exact hfirst.rank_le
    case failed =>
      rintro k f q' hnew hfact hpath hk htry ⟨⟩
      cases hk
      obtain ⟨hkept, hroom', hbest⟩ := hrules hnew hfact hpath _ _ htry
      refine ⟨hkept, hroom', ?_⟩
      intro hfollows
      obtain ⟨c, hc, hkind, hallowed, hhead, hbody⟩ := hfollows.avoiding_path hfact
      obtain ⟨i, hmem⟩ := Database.exists_mem_rulesFor hc hkind hhead
      obtain ⟨first, children, -, hd⟩ := hbest (i, c) hmem hallowed hbody
      exact ⟨_, hd⟩

end Search

/-! ### Proofs show what follows -/

/-- What a justified proof by allowed rules proves follows by them. -/
theorem follows_of_justified {db : Database} {allowed : Clause → Prop} {d : Derivation}
    (hd : ∀ n ∈ d.nodes, n.Justified db)
    (hallowed : ∀ n ∈ d.nodes, n.kind ≠ .inputFact →
      ∀ c, db.clauses[n.clause]? = some c → allowed c) :
    Follows db allowed d.atom := by
  induction d with
  | node atom clause kind children ih =>
    have hself := self_mem_nodes ⟨atom, clause, kind, children⟩
    obtain ⟨c, hget, hhead, hkind, hbody⟩ := (hd _ hself).clause
    dsimp only at hget hhead hkind hbody ⊢
    by_cases hfact : kind = .inputFact
    · refine .fact (Database.fact?_ne_none (List.mem_of_getElem? hget) ⟨hkind.trans hfact, hhead⟩)
    · rw [← hhead]
      refine .rule (List.mem_of_getElem? hget) (fun h => hfact (hkind.symm.trans h))
        (hallowed _ hself hfact c hget) ?_
      intro a ha
      rw [← hbody hfact] at ha
      obtain ⟨child, hchild, rfl⟩ := List.mem_map.1 ha
      have hsub : ∀ n ∈ child.nodes, n ∈ nodes ⟨atom, clause, kind, children⟩ := by
        intro n hn
        exact Below.mem_nodes ⟨child, hchild, hn⟩
      exact ih child hchild (fun n hn => hd n (hsub n hn)) fun n hn => hallowed n (hsub n hn)

end Derivation

/-! ### Sessions -/

namespace Session

open HornPlan.Derivation

theorem proveAtom_eq_ok {s : Session} {goal : Atom} {d : Derivation} :
    (s.proveAtom goal).1 = .ok d ↔ (s.prove goal).1 = .ok d := by
  unfold proveAtom
  rcases s.prove goal with ⟨(a | path | a) | e, s'⟩
  · exact ⟨fun h => (nomatch h), fun h => nomatch h⟩
  · exact ⟨fun h => (nomatch h), fun h => nomatch h⟩
  · exact ⟨fun h => (nomatch h), fun h => nomatch h⟩
  · exact ⟨fun h => (by cases h; rfl), fun h => (by cases h; rfl)⟩

variable {s : Session} {g : Guide}

/-- A session with enough room proves what follows by the rules that a guide allows,
    and keeps to the guide. -/
theorem prove_finds (hg : g.Valid s.database) (hs : s.Settled) (hkept : g.Kept s.memory.proven)
    (hroom : s.database.ruleHeads.card < s.maxDepth) {goal : Atom} (hgoal : g.reached [] goal) :
    g.Kept (s.prove goal).2.memory.proven ∧
      (Follows s.database g.allowed goal → ∃ d, (s.prove goal).1 = .ok d) := by
  rcases hr : search s.database s.maxDepth [] goal s.memory.proven with ⟨r, q⟩
  obtain ⟨⟨-, hkept⟩, -, hfind⟩ := search_finds hg s.maxDepth [] (by simp)
    List.nodup_nil (by simp) (by simpa using hroom) goal hgoal s.memory.proven r q
    ⟨⟨hs.coherent, fun a ha => nomatch ha⟩, hkept⟩ hr
  rw [hs.prove_eq hr]
  refine ⟨hkept, ?_⟩
  intro hfollows
  exact hfind (hfollows.mono fun c hc => ⟨hc, fun h => nomatch h⟩)

/-- So it proves any outputs that follow, one after the other. -/
theorem deriveAll_finds (ts : List Tuple) : ∀ {s : Session}, g.Valid s.database → s.Settled →
    g.Kept s.memory.proven → s.database.ruleHeads.card < s.maxDepth →
      (∀ t ∈ ts, g.reached [] (.resource t) ∧ Follows s.database g.allowed (.resource t)) →
        ∃ ds, (deriveAll ts s).1 = .ok ds := by
  induction ts with
  | nil => exact fun _ _ _ _ _ => ⟨[], rfl⟩
  | cons t rest ih =>
    intro s hg hs hkept hroom hall
    obtain ⟨hreached, hfollows⟩ := hall t List.mem_cons_self
    obtain ⟨hkept', hfind⟩ := prove_finds hg hs hkept hroom hreached
    obtain ⟨hnext, -⟩ := prove_succeeds hs (.resource t)
    obtain ⟨d, hd⟩ := hfind hfollows
    unfold deriveAll
    rcases hp : s.prove (.resource t) with ⟨r, s'⟩
    rw [hp] at hkept' hnext hd
    dsimp only at hkept' hnext hd
    subst hd
    dsimp only
    rw [← hnext.database] at hg hroom
    rw [← hnext.maxDepth] at hroom
    obtain ⟨ds, hds⟩ := ih hg hnext.settled hkept' hroom fun t ht => by
      rw [hnext.database]
      exact hall t (List.mem_cons_of_mem _ ht)
    rcases hrest : deriveAll rest s' with ⟨r, s''⟩
    rw [hrest] at hds
    dsimp only at hds
    subst hds
    exact ⟨_, rfl⟩

end Session

end HornPlan
