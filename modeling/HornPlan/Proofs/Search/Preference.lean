/-
  HornPlan/Proofs/Search/Preference.lean
  ======================================
  **The rule that a proof begins with.**

  A search uses the first rule for a goal, by rank and by position, that it can prove the
  body of.  While it tries, the goal is on the path and counts for nothing, so the body
  of a rule can be proved if it holds in the least model of the database *without* the
  clauses for the goal (`Viable`).  A rule that comes before the one that is used has
  been skipped because it has no proof, and not because of what the search happened to
  have kept or to be busy with.

  The two halves of this are the soundness of the search and its completeness, both
  below a path: a proof that is found there does without the goals of the path
  (`follows_of_kept`), and what follows without them is found (`search_finds`).

  Specification, sections 4.4 and G: the priority among clauses.
-/
import HornPlan.Proofs.Search.LeastModel

namespace HornPlan

open HornPlan.Derivation

namespace Database

variable {db : Database} {a b : Atom}

/-! ### Leaving out the clauses for an atom -/

def without (db : Database) (a : Atom) : Database :=
  { db with clauses := db.clauses.filter fun c => c.head ≠ a }

theorem mem_without {c : Clause} : c ∈ (db.without a).clauses ↔ c ∈ db.clauses ∧ c.head ≠ a := by
  simp [without]

theorem fact?_without (h : db.fact? a = none) :
    (db.without a).fact? b = none ↔ db.fact? b = none := by
  simp only [fact?_eq_none, mem_without]
  constructor
  · intro hb c hc hstates
    apply hb c ⟨hc, ?_⟩ hstates
    rintro rfl
    exact fact?_eq_none.1 h c hc ⟨hstates.1, rfl⟩
  · intro hb c hc
    exact hb c hc.1

/-- What follows without the clauses for an atom follows by rules that avoid it. -/
theorem follows_without (h : db.fact? a = none) :
    Follows (db.without a) (fun _ => True) b ↔ Follows db (Avoiding (fun _ => True) [a]) b := by
  constructor
  · intro hb
    induction hb with
    | fact hfact => exact .fact (mt (fact?_without h).2 hfact)
    | rule hc hkind _ _ ih =>
      obtain ⟨hc, hhead⟩ := mem_without.1 hc
      exact .rule hc hkind ⟨trivial, by simpa using hhead⟩ ih
  · intro hb
    induction hb with
    | fact hfact => exact .fact (mt (fact?_without h).1 hfact)
    | rule hc hkind hallowed _ ih =>
      exact .rule (mem_without.2 ⟨hc, by simpa using hallowed.2⟩) hkind trivial ih

/-- The clause at position `i` is for `a`, and its body can be proved without `a`. -/
structure Viable (db : Database) (a : Atom) (i : Nat) (c : Clause) : Prop where
  get : db.clauses[i]? = some c
  head : c.head = a
  body : ∀ b ∈ c.body, b ∈ (db.without a).leastModel Freely

theorem mem_leastModel_without (h : db.fact? a = none) :
    b ∈ (db.without a).leastModel Freely ↔ Follows db (Avoiding (fun _ => True) [a]) b := by
  rw [mem_leastModel fun _ _ _ _ hgrants => hgrants]
  exact follows_without h

end Database

/-! ### The rules of one goal -/

namespace Derivation

variable {db : Database} {path : List Atom} {p q : Proven} {a : Atom}

/-- A proof that is kept below a path does without the goals of the path. -/
theorem follows_of_kept (hq : Open db path q) {d : Derivation} (hd : q.lookup d.atom = some d) :
    Follows db (Avoiding (fun _ => True) path) d.atom := by
  have hnode := hq.1.lookup_node hd
  apply follows_of_justified
  · intro n hn
    exact hq.1.justified (hnode n hn)
  · intro n hn _ c hget
    obtain ⟨c', hget', hhead, -⟩ := (hq.1.justified (hnode n hn)).clause
    rw [hget] at hget'
    cases hget'
    refine ⟨trivial, fun hmem => ?_⟩
    -- nothing is kept for a goal that is still open
    have hopen := hq.2 n.atom (hhead ▸ hmem)
    rw [hnode n hn] at hopen
    cases hopen

/-- **Of the rules for a goal the first viable one is used**, if there is any. -/
theorem tryRules_viable (hfree : db.NeverRestsOnHeld) (hfact : db.fact? a = none) {room : Nat}
    (hroom : db.ruleHeads.card < room + 1) {r : Except Failure Derivation}
    (hr : tryRules (search db room [a]) a (db.rulesFor a) .none [] = (r, q)) :
    (∀ d, r = .ok d → ∃ c, db.Viable a d.clause c ∧ c.kind = d.kind) ∧
      ∀ i c, db.Viable a i c → ∃ first children, Database.Preferred first (i, c) ∧
        r = .ok ⟨a, first.1, first.2.kind, children⟩ := by
  have hfacts : ∀ b ∈ [a], db.fact? b = none := by simpa using hfact
  have hopen : Open db [a] [] := ⟨.empty db, fun _ _ => rfl⟩
  constructor
  · rintro d rfl
    obtain ⟨hq, -, hmade⟩ := (search_sane db room [a] hfacts).tryRules a _ _ [] _ q hopen hr
    obtain ⟨⟨i, c⟩, hrule, hd, hbody, -⟩ := hmade d rfl
    obtain ⟨hget, -, hhead⟩ := Database.mem_rulesFor.1 hrule
    obtain ⟨hatoms, hkept⟩ := hq.1.body hbody
    rw [hd]
    refine ⟨c, ⟨hget, hhead, fun b hb => ?_⟩, rfl⟩
    rw [← hatoms] at hb
    obtain ⟨child, hchild, rfl⟩ := List.mem_map.1 hb
    exact (Database.mem_leastModel_without hfact).2 (follows_of_kept hq (hkept child hchild))
  · intro i c hviable
    have hkept : (Guide.free db).Kept [] := fun _ _ _ h => nomatch h
    have hreached : (Guide.free db).reached [] a := trivial
    obtain ⟨-, -, hfirst⟩ := tryRules_finds (Guide.free_valid hfree) hfacts hreached (by simp)
      ⟨hopen, hkept⟩ (fun hhead => search_finds (Guide.free_valid hfree) room [a] hfacts (by simp)
        (by simpa using hhead) (by simpa using hroom)) hr
    have hkind : c.kind ≠ .inputFact := fun hk =>
      Database.fact?_eq_none.1 hfact c (List.mem_of_getElem? hviable.get) ⟨hk, hviable.head⟩
    exact hfirst (i, c) (Database.mem_rulesFor.2 ⟨hviable.get, hkind, hviable.head⟩) trivial
      fun b hb => (Database.mem_leastModel_without hfact).1 (hviable.body b hb)

end Derivation

/-! ### Sessions -/

namespace Session

/-- What a new session that has room does with a goal that is no fact. -/
theorem proveAtom_start {db : Database} {a : Atom} (hfact : db.fact? a = none) (room : Nat)
    (d : Derivation) : ((start db (room + 1)).proveAtom a).1 = .ok d ↔
      (tryRules (search db room [a]) a (db.rulesFor a) .none []).1 = .ok d := by
  rw [proveAtom_eq_ok]
  rcases hr : search db (room + 1) [] a [] with ⟨r, q⟩
  rw [(settled_start db (room + 1)).prove_eq hr]
  unfold search at hr
  simp only [List.lookup_nil, hfact, List.not_mem_nil, if_false] at hr
  rcases htry : tryRules (search db room [a]) a (db.rulesFor a) .none [] with ⟨f | e, q'⟩
  · rw [htry] at hr
    cases hr
    rfl
  · rw [htry] at hr
    cases hr
    rfl

/-- **A new session proves an atom by the most preferred of its viable clauses**, and
    refuses it exactly if there is none. -/
theorem proveAtom_prefers {db : Database} {maxDepth : Nat} (hfree : db.NeverRestsOnHeld)
    (hroom : db.heads.card < maxDepth) (a : Atom)
    (hfact : ∀ c ∈ db.clauses, c.kind = .inputFact → c.head ≠ a) :
    (∀ d, ((start db maxDepth).proveAtom a).1 = .ok d →
      ∃ c, db.Viable a d.clause c ∧
        ∀ j c', db.Viable a j c' → Database.Preferred (d.clause, c) (j, c')) ∧
    ((∃ e, ((start db maxDepth).proveAtom a).1 = .error e) ↔ ∀ i c, ¬ db.Viable a i c) := by
  have hnone : db.fact? a = none :=
    Database.fact?_eq_none.2 fun c hc hstates => hfact c hc hstates.1 hstates.2
  have hheads : db.ruleHeads.card < maxDepth := Nat.lt_of_le_of_lt db.card_ruleHeads_le hroom
  obtain ⟨room, rfl⟩ : ∃ room, maxDepth = room + 1 := ⟨maxDepth - 1, by omega⟩
  have hstart := proveAtom_start hnone room
  rcases hr : tryRules (search db room [a]) a (db.rulesFor a) .none [] with ⟨r, q⟩
  rw [hr] at hstart
  obtain ⟨hsound, hfirst⟩ := tryRules_viable hfree hnone hheads hr
  constructor
  · intro d hd
    obtain ⟨c, hviable, hkind⟩ := hsound d ((hstart d).1 hd)
    refine ⟨c, hviable, fun j c' hj => ?_⟩
    obtain ⟨first, children, hpreferred, heq⟩ := hfirst j c' hj
    -- the rule that is used is known by its position and its kind
    cases heq.symm.trans ((hstart d).1 hd)
    simpa only [Database.Preferred, hkind] using hpreferred
  · constructor
    · rintro ⟨e, he⟩ i c hviable
      obtain ⟨first, children, -, heq⟩ := hfirst i c hviable
      cases he.symm.trans ((hstart _).2 heq)
    · intro hno
      rcases hp : ((start db (room + 1)).proveAtom a).1 with e | d
      · exact ⟨e, rfl⟩
      · obtain ⟨c, hviable, -⟩ := hsound d ((hstart d).1 hp)
        exact absurd hviable (hno _ c)

/-- A sentence can be made by a summary, which would need a paragraph and so a sentence,
    or be written about the topic.  The summary comes first, and is passed over. -/
theorem proveAtom_prefers_rewriting :
    let sentence := Atom.resource (.wildcard "sentence")
    rewriting.NeverRestsOnHeld ∧ rewriting.heads.card < 6 ∧
      (∀ c ∈ rewriting.clauses, c.kind = .inputFact → c.head ≠ sentence) ∧
      (∃ d c, ((start rewriting 6).proveAtom sentence).1 = .ok d ∧ d.clause = 4 ∧
        rewriting.Viable sentence 4 c) ∧
      ∀ c, ¬ rewriting.Viable sentence 2 c := by
  intro sentence
  have hfree : rewriting.NeverRestsOnHeld := by decide
  have hroom : rewriting.heads.card < 6 := by decide
  have hfact : ∀ c ∈ rewriting.clauses, c.kind = .inputFact → c.head ≠ sentence := by decide
  obtain ⟨d, hd, hclause⟩ : ∃ d, ((start rewriting 6).proveAtom sentence).1 = .ok d ∧
      d.clause = 4 := ⟨_, rfl, rfl⟩
  obtain ⟨c, hviable, hbest⟩ := (proveAtom_prefers hfree hroom sentence hfact).1 d hd
  rw [hclause] at hviable hbest
  refine ⟨hfree, hroom, hfact, ⟨d, c, hd, hclause, hviable⟩, fun c' hsummary => ?_⟩
  -- the summary is of the same rank, so it would be preferred if it were viable
  have hpreferred := hbest 2 c' hsummary
  cases hviable.get
  cases hsummary.get
  rcases hpreferred with hrank | ⟨-, hposition⟩
  · exact Nat.lt_irrefl _ hrank
  · exact absurd hposition (by decide)

end Session

end HornPlan
