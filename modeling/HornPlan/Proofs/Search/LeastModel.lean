/-
  HornPlan/Proofs/Search/LeastModel.lean
  ======================================
  **A search decides the least model.**

  A model of a database is a set of atoms that holds its facts and is closed under its
  rules.  When a rule may be used can depend on what the model holds (`grants`); the
  sets that are closed in this sense have a least one (`isLeast_leastModel`), and it
  consists of what follows by the rules that it grants (`mem_leastModel`).

  A session that may use every rule proves an atom exactly if the least model holds it,
  whatever it has been asked before (`proveAtom_decides`).  It has to be kept from one
  kind of refusal: no rule that asks for a made instance may ask for an atom that held
  instances stand for.

  Specification, section 4.4, of `prove_atom` after any requests.
-/
import HornPlan.Proofs.Results
import HornPlan.Proofs.Search.Completeness
import Mathlib.Data.Set.BooleanAlgebra
import Mathlib.Order.CompletePartialOrder

namespace HornPlan

/-! ### Models -/

namespace Database

/-- A set of atoms that holds the facts, and with the body of a rule also its head,
    provided that it grants the rule. -/
structure IsModel (db : Database) (grants : Set Atom → Clause → Prop) (m : Set Atom) : Prop where
  fact : ∀ c ∈ db.clauses, c.kind = .inputFact → c.head ∈ m
  rule : ∀ c ∈ db.clauses, c.kind ≠ .inputFact → grants m c → (∀ a ∈ c.body, a ∈ m) → c.head ∈ m

def leastModel (db : Database) (grants : Set Atom → Clause → Prop) : Set Atom :=
  {a | ∀ m, db.IsModel grants m → a ∈ m}

def Freely (_ : Set Atom) (_ : Clause) : Prop := True

section Monotone

variable {db : Database} {grants : Set Atom → Clause → Prop}
  (hmono : Monotone grants)
include hmono

/-- **What all models hold is a model**, if a larger set grants more. -/
theorem isLeast_leastModel : IsLeast {m | db.IsModel grants m} (db.leastModel grants) := by
  have hlower : ∀ m, db.IsModel grants m → db.leastModel grants ⊆ m := fun m hm a ha => ha m hm
  refine ⟨⟨?_, ?_⟩, fun m hm => hlower m hm⟩
  · intro c hc hkind m hm
    exact hm.fact c hc hkind
  · -- a rule that the least model grants is granted by every model above it
    intro c hc hkind hgrants hbody m hm
    exact hm.rule c hc hkind (hmono (hlower m hm) c hgrants) fun a ha => hlower m hm (hbody a ha)

/-- The least model consists of what follows by the rules that it grants. -/
theorem mem_leastModel {a : Atom} :
    a ∈ db.leastModel grants ↔ Follows db (grants (db.leastModel grants)) a := by
  have hmodel : db.IsModel grants (db.leastModel grants) := (isLeast_leastModel hmono).1
  have hsound : ∀ b, Follows db (grants (db.leastModel grants)) b → b ∈ db.leastModel grants := by
    intro b hb
    induction hb with
    | @fact b hfact =>
      obtain ⟨i, hi⟩ := Option.ne_none_iff_exists'.1 hfact
      obtain ⟨⟨c, hget, hkind, rfl⟩, -⟩ := fact?_eq_some hi
      exact hmodel.fact c (List.mem_of_getElem? hget) hkind
    | @rule c hc hkind hgrants _ ih => exact hmodel.rule c hc hkind hgrants ih
  -- conversely, what follows is a model, so the least one holds no more
  refine ⟨fun ha => ha {b | Follows db (grants (db.leastModel grants)) b} ⟨?_, ?_⟩, hsound a⟩
  · intro c hc hkind
    exact .fact (fact?_ne_none hc ⟨hkind, rfl⟩)
  · intro c hc hkind hgrants hbody
    exact .rule hc hkind (hmono hsound c hgrants) hbody

end Monotone

/-! ### Nothing that is held is in the way -/

/-- No rule that asks for a made instance asks for one that held instances stand for. -/
def NeverRestsOnHeld (db : Database) : Prop :=
  ∀ c ∈ db.clauses, c.kind = .assignment ∨ c.kind = .completion →
    ∀ g ∈ db.clauses, g.kind = .generalization → c.body.head? ≠ some g.head

instance (db : Database) : Decidable db.NeverRestsOnHeld := by
  unfold NeverRestsOnHeld
  infer_instance

end Database

namespace Derivation

/-- A search by all rules, for any goals. -/
def Guide.free (db : Database) : Guide where
  allowed _ := True
  made a := ∃ c ∈ db.clauses, (c.kind = .assignment ∨ c.kind = .completion) ∧
    c.body.head? = some a
  reached _ _ := True

theorem Guide.free_valid {db : Database} (hfree : db.NeverRestsOnHeld) :
    (Guide.free db).Valid db where
  step _ _ _ _ _ _ _ _ _ := trivial
  asks c hc _ hkind _ hfirst := ⟨c, hc, hkind, hfirst⟩
  makes := by
    rintro path goal - ⟨c, hc, hkind, hfirst⟩ - -
    apply Or.inl
    intro g hg hhead hgen
    exact hfree c hc hkind g hg hgen (hhead ▸ hfirst)

end Derivation

/-! ### Sessions -/

namespace Session

open HornPlan.Derivation

section Guided

variable {g : Guide}

/-- Proving tuples one after the other keeps to a guide, however it ends. -/
theorem deriveAll_kept (ts : List Tuple) : ∀ {s : Session}, g.Valid s.database → s.Settled →
    g.Kept s.memory.proven → s.database.ruleHeads.card < s.maxDepth →
      (∀ goal, g.reached [] goal) → g.Kept (deriveAll ts s).2.memory.proven := by
  induction ts with
  | nil => exact fun _ _ hkept _ _ => hkept
  | cons t rest ih =>
    intro s hg hs hkept hroom hreached
    obtain ⟨hkept', -⟩ := prove_finds hg hs hkept hroom (hreached (.resource t))
    obtain ⟨hnext, -⟩ := prove_succeeds hs (.resource t)
    unfold deriveAll
    rcases hp : s.prove (.resource t) with ⟨f | d, s'⟩
    · rw [hp] at hkept'
      exact hkept'
    · rw [hp] at hkept' hnext
      rw [← hnext.database] at hg hroom
      rw [← hnext.maxDepth] at hroom
      have hrest := ih hg hnext.settled hkept' hroom hreached
      dsimp only
      rcases hr : deriveAll rest s' with ⟨e | ds, s''⟩
      · rw [hr] at hrest
        exact hrest
      · rw [hr] at hrest
        exact hrest

theorem answer_kept {s : Session} (hg : g.Valid s.database) (hs : s.Settled)
    (hkept : g.Kept s.memory.proven) (hroom : s.database.ruleHeads.card < s.maxDepth)
    (hreached : ∀ goal, g.reached [] goal) (request : Request) :
    g.Kept (s.answer request).2.memory.proven := by
  cases request with
  | derive =>
    have hall := deriveAll_kept s.database.outputs hg hs hkept hroom hreached
    simp only [answer, derive]
    rcases hr : deriveAll s.database.outputs s with ⟨e | ds, s'⟩
    · rw [hr] at hall
      exact hall
    · rw [hr] at hall
      exact hall
  | prove goal =>
    obtain ⟨hkept', -⟩ := prove_finds hg hs hkept hroom (hreached goal)
    simp only [answer, proveAtom]
    rcases hp : s.prove goal with ⟨(a | path | a) | d, s'⟩
    all_goals
      rw [hp] at hkept'
      exact hkept'

theorem answers_kept (requests : List Request) : ∀ {s : Session}, g.Valid s.database → s.Settled →
    g.Kept s.memory.proven → s.database.ruleHeads.card < s.maxDepth →
      (∀ goal, g.reached [] goal) → g.Kept (answers requests s).2.memory.proven := by
  induction requests with
  | nil => exact fun _ _ hkept _ _ => hkept
  | cons request rest ih =>
    intro s hg hs hkept hroom hreached
    have hkept' := answer_kept hg hs hkept hroom hreached request
    obtain ⟨hnext, -⟩ := answer_succeeds hs request
    rw [← hnext.database] at hg hroom
    rw [← hnext.maxDepth] at hroom
    exact ih hg hnext.settled hkept' hroom hreached

end Guided

theorem follows_of_proveAtom {s : Session} (hs : s.Settled) {goal : Atom} {d : Derivation}
    (h : (s.proveAtom goal).1 = .ok d) : Follows s.database (fun _ => True) goal := by
  obtain ⟨hnext, hfound⟩ := prove_succeeds hs goal
  obtain ⟨hkeeps, rfl⟩ := hfound d (proveAtom_eq_ok.1 h)
  have hcoh := hnext.settled.coherent
  rw [hnext.database] at hcoh
  exact follows_of_justified (fun n hn => hcoh.justified (hcoh.lookup_node hkeeps n hn))
    fun _ _ _ _ _ => trivial

/-- **A session proves an atom exactly if the least model of its database holds it**,
    cycles notwithstanding, and whatever it has proved or failed to prove before. -/
theorem proveAtom_decides {db : Database} {maxDepth : Nat} (hfree : db.NeverRestsOnHeld)
    (hroom : db.heads.card < maxDepth) (earlier : List Request) (a : Atom) :
    IsLeast {m | db.IsModel Database.Freely m} (db.leastModel Database.Freely) ∧
      ((∃ d, ((answers earlier (start db maxDepth)).2.proveAtom a).1 = .ok d) ↔
        a ∈ db.leastModel Database.Freely) := by
  have hmono : Monotone Database.Freely := fun _ _ _ _ h => h
  have hroom' : db.ruleHeads.card < maxDepth := Nat.lt_of_le_of_lt db.card_ruleHeads_le hroom
  have hsettled := settled_start db maxDepth
  obtain ⟨hnext, -⟩ := answers_succeed earlier hsettled
  have hkept := answers_kept (s := start db maxDepth) earlier (Guide.free_valid hfree) hsettled
    (fun _ _ _ h => nomatch h) hroom' fun _ => trivial
  refine ⟨Database.isLeast_leastModel hmono, ?_⟩
  rw [Database.mem_leastModel hmono]
  -- from here on only what is known of the session after the earlier requests counts
  generalize (answers earlier (start db maxDepth)).2 = s at hnext hkept ⊢
  have hdb : s.database = db := hnext.database
  have hdepth : s.maxDepth = maxDepth := hnext.maxDepth
  subst hdb hdepth
  constructor
  · rintro ⟨d, hd⟩
    exact follows_of_proveAtom hnext.settled hd
  · intro hfollows
    have hgoal : (Guide.free s.database).reached [] a := trivial
    obtain ⟨-, hfind⟩ := prove_finds (Guide.free_valid hfree) hnext.settled hkept hroom' hgoal
    obtain ⟨d, hd⟩ := hfind hfollows
    exact ⟨d, proveAtom_eq_ok.2 hd⟩

/-- A topic is held and a paragraph asked for; a task makes sentences from topics, two
    more make sentences and paragraphs from one another. -/
def rewriting : Database :=
  Database.empty.pushAll [
    .inputFact (.concrete "topic" ⟨1, by decide⟩),
    .generalization (.concrete "topic" ⟨1, by decide⟩),
    .ofTask ⟨"Summarize", "", "paragraph", "sentence", .ok⟩,
    .ofTask ⟨"ExpandParagraph", "", "sentence", "paragraph", .ok⟩,
    .ofTask ⟨"WriteSentence", "", "topic", "sentence", .ok⟩,
    .assignment (.concrete "paragraph" ⟨1, by decide⟩)]

/-- A session over it that has been asked for an image, which nothing makes, and for any
    sentence. -/
def rewritingSession : Session :=
  (answers [.prove (.resource (.wildcard "image")), .prove (.resource (.wildcard "sentence"))]
    (start rewriting 6)).2

/-- It proves the paragraph, which the least model holds, and refuses the image again,
    which that does not hold. -/
theorem proveAtom_decides_rewriting :
    rewriting.NeverRestsOnHeld ∧ rewriting.heads.card < 6 ∧
      (∃ d, (rewritingSession.proveAtom (.resource (.concrete "paragraph" ⟨1, by decide⟩))).1 =
        .ok d) ∧
      .resource (.concrete "paragraph" ⟨1, by decide⟩) ∈ rewriting.leastModel Database.Freely ∧
      .resource (.wildcard "image") ∉ rewriting.leastModel Database.Freely := by
  have hfree : rewriting.NeverRestsOnHeld := by decide
  have hroom : rewriting.heads.card < 6 := by decide
  have hparagraph : (rewritingSession.proveAtom
      (.resource (.concrete "paragraph" ⟨1, by decide⟩))).1.isOk = true := by decide +kernel
  have himage : (rewritingSession.proveAtom (.resource (.wildcard "image"))).1.isOk = false := by
    decide +kernel
  have hdecides := proveAtom_decides hfree hroom
    [.prove (.resource (.wildcard "image")), .prove (.resource (.wildcard "sentence"))]
  refine ⟨hfree, hroom, isOk_iff.1 hparagraph, (hdecides _).2.1 (isOk_iff.1 hparagraph), ?_⟩
  intro hmem
  have hok := isOk_iff.2 ((hdecides _).2.2 hmem)
  exact absurd hok (Bool.eq_false_iff.1 himage)

end Session

end HornPlan
