/-
  HornPlan/Proofs/Search/Requests.lean
  ====================================
  **What a session hands out.**

  A session answers requests one after the other, failing ones included, and keeps
  what it has proved in between.  `Settled` is what holds between two requests: the
  path is empty, in both of its records, and the memory is coherent.  Every request
  preserves it, so every derivation that is ever handed out consists of kept proofs.

  `answers_genuine` draws the conclusions: the derivations are justified node by
  node, no atom occurs twice on a branch, and an atom is proved in one way only.

  Specification, sections 4.4 and G, of any course of requests to one `Resolver`.
-/
import HornPlan.Proofs.Search.Memo

namespace HornPlan

namespace Session

/-! ### Requests -/

/-- What a session may be asked. -/
inductive Request where
  /-- To prove the outputs of the database. -/
  | derive
  /-- To prove one atom. -/
  | prove (goal : Atom)
deriving DecidableEq, Repr

/-- Answers one request. -/
def answer (s : Session) : Request → Except Error (List Derivation) × Session
  | .derive =>
    match s.derive with
    | (.ok ds, s) => (.ok (ds.map Prod.snd), s)
    | (.error e, s) => (.error e, s)
  | .prove goal =>
    match s.proveAtom goal with
    | (.ok d, s) => (.ok [d], s)
    | (.error e, s) => (.error e, s)

/-- Answers requests one after the other. -/
def answers : List Request → Session → List (Except Error (List Derivation)) × Session
  | [], s => ([], s)
  | r :: rest, s =>
    let (first, s) := s.answer r
    let (others, s) := answers rest s
    (first :: others, s)

/-- The derivations among some answers. -/
def HandedOut (answers : List (Except Error (List Derivation))) (d : Derivation) : Prop :=
  ∃ ds, .ok ds ∈ answers ∧ d ∈ ds

/-! ### Between two requests -/

/-- No goal is open, and what is kept is coherent. -/
structure Settled (s : Session) : Prop where
  path : s.memory.path = []
  onPath : s.memory.onPath = []
  coherent : Derivation.Coherent s.database s.memory.proven

theorem settled_start (db : Database) (maxDepth : Nat) : (start db maxDepth).Settled :=
  ⟨rfl, rfl, Derivation.Coherent.empty db⟩

/-- `t` is a settled session over the database of `s` that keeps all that `s` does. -/
structure Succeeds (t s : Session) : Prop where
  settled : t.Settled
  database : t.database = s.database
  maxDepth : t.maxDepth = s.maxDepth
  keeps : Derivation.Extends s.memory.proven t.memory.proven

theorem Succeeds.refl {s : Session} (h : s.Settled) : s.Succeeds s :=
  ⟨h, rfl, rfl, Derivation.Extends.refl _⟩

theorem Succeeds.trans {s t u : Session} (hut : u.Succeeds t) (hts : t.Succeeds s) :
    u.Succeeds s :=
  ⟨hut.settled, hut.database.trans hts.database, hut.maxDepth.trans hts.maxDepth,
    hts.keeps.trans hut.keeps⟩

/-- Is the derivation a kept proof? -/
def Keeps (s : Session) (d : Derivation) : Prop := s.memory.proven.lookup d.atom = some d

theorem Keeps.mono {s t : Session} {d : Derivation} (h : s.Keeps d) (hts : t.Succeeds s) :
    t.Keeps d :=
  hts.keeps _ _ h

/-- In a settled session nothing is on the path, before a goal is proved and after. -/
theorem Settled.prove_eq {s : Session} (hs : s.Settled) {goal : Atom}
    {r : Except Failure Derivation} {q : Derivation.Proven}
    (hr : Derivation.search s.database s.maxDepth [] goal s.memory.proven = (r, q)) :
    s.prove goal = (r, { s with memory := ⟨[], [], q⟩ }) := by
  have hconsistent : s.memory.Consistent := by
    intro a
    rw [hs.path, hs.onPath]
  have heq := Derivation.prove_eq_search s.database s.maxDepth goal s.memory hconsistent
  rw [hs.path, hs.onPath] at heq
  simp only [Session.prove, heq, Derivation.carry, hr]

/-- Proving one goal settles again, and the proof that is found is kept. -/
theorem prove_succeeds {s : Session} (hs : s.Settled) (goal : Atom) :
    (s.prove goal).2.Succeeds s ∧
      ∀ d, (s.prove goal).1 = .ok d → (s.prove goal).2.Keeps d ∧ d.atom = goal := by
  have hopen : Derivation.Open s.database [] s.memory.proven :=
    ⟨hs.coherent, fun g hg => nomatch hg⟩
  rcases hr : Derivation.search s.database s.maxDepth [] goal s.memory.proven with ⟨r, q⟩
  obtain ⟨hq, hext, hfind⟩ := Derivation.search_sane s.database s.maxDepth []
    (fun g hg => nomatch hg) goal s.memory.proven r q hopen hr
  rw [hs.prove_eq hr]
  refine ⟨⟨⟨rfl, rfl, hq.1⟩, rfl, rfl, hext⟩, ?_⟩
  intro d hd
  have hatom : d.atom = goal := hq.1.atom (hfind d hd)
  refine ⟨?_, hatom⟩
  rw [Keeps, hatom]
  exact hfind d hd

/-- Proving tuples one after the other settles again, and all proofs are kept. -/
theorem deriveAll_succeeds (ts : List Tuple) : ∀ {s : Session}, s.Settled →
    (deriveAll ts s).2.Succeeds s ∧
      ∀ ds, (deriveAll ts s).1 = .ok ds →
        ds.map Prod.fst = ts ∧
          ∀ td ∈ ds, (deriveAll ts s).2.Keeps td.2 ∧ td.2.atom = .resource td.1 := by
  induction ts with
  | nil =>
    intro s hs
    refine ⟨Succeeds.refl hs, ?_⟩
    intro ds hds
    injection hds with hds
    subst hds
    exact ⟨rfl, fun td htd => nomatch htd⟩
  | cons t rest ih =>
    intro s hs
    obtain ⟨hnext, hfind⟩ := prove_succeeds hs (.resource t)
    unfold deriveAll
    rcases hp : s.prove (.resource t) with ⟨f | d, s'⟩
    · rw [hp] at hnext
      exact ⟨hnext, fun ds hds => nomatch hds⟩
    · rw [hp] at hnext hfind
      obtain ⟨hkept, hatom⟩ := hfind d rfl
      obtain ⟨hrest, hall⟩ := ih hnext.settled
      dsimp only
      rcases hr : deriveAll rest s' with ⟨e | ds, s''⟩
      · rw [hr] at hrest
        exact ⟨hrest.trans hnext, fun ds hds => nomatch hds⟩
      · rw [hr] at hrest hall
        obtain ⟨htuples, hproofs⟩ := hall ds rfl
        refine ⟨hrest.trans hnext, ?_⟩
        intro es hes
        injection hes with hes
        subst hes
        refine ⟨by rw [List.map_cons, htuples], ?_⟩
        intro td htd
        rcases List.mem_cons.1 htd with rfl | htd
        · exact ⟨hkept.mono hrest, hatom⟩
        · exact hproofs td htd

/-- A request settles again, and what it hands out is kept. -/
theorem answer_succeeds {s : Session} (hs : s.Settled) (request : Request) :
    (s.answer request).2.Succeeds s ∧
      ∀ ds, (s.answer request).1 = .ok ds → ∀ d ∈ ds, (s.answer request).2.Keeps d := by
  cases request with
  | derive =>
    obtain ⟨hnext, hall⟩ := deriveAll_succeeds s.database.outputs hs
    simp only [answer, derive]
    rcases hr : deriveAll s.database.outputs s with ⟨e | ds, s'⟩
    · rw [hr] at hnext
      exact ⟨hnext, fun ds hds => nomatch hds⟩
    · rw [hr] at hnext hall
      refine ⟨hnext, ?_⟩
      intro es hes d hd
      injection hes with hes
      subst hes
      obtain ⟨td, htd, rfl⟩ := List.mem_map.1 hd
      exact ((hall ds rfl).2 td htd).1
  | prove goal =>
    obtain ⟨hnext, hfind⟩ := prove_succeeds hs goal
    simp only [answer, proveAtom]
    rcases hp : s.prove goal with ⟨(a | path | a) | d, s'⟩
    · rw [hp] at hnext
      exact ⟨hnext, fun ds hds => nomatch hds⟩
    · rw [hp] at hnext
      exact ⟨hnext, fun ds hds => nomatch hds⟩
    · rw [hp] at hnext
      exact ⟨hnext, fun ds hds => nomatch hds⟩
    · rw [hp] at hnext hfind
      refine ⟨hnext, ?_⟩
      intro es hes e he
      injection hes with hes
      subst hes
      rw [List.mem_singleton.1 he]
      exact (hfind d rfl).1

/-- After any requests the session is settled, and all that it has handed out is
    kept. -/
theorem answers_succeed (requests : List Request) : ∀ {s : Session}, s.Settled →
    (answers requests s).2.Succeeds s ∧
      ∀ d, HandedOut (answers requests s).1 d → (answers requests s).2.Keeps d := by
  induction requests with
  | nil =>
    intro s hs
    refine ⟨Succeeds.refl hs, ?_⟩
    rintro d ⟨ds, hds, -⟩
    cases hds
  | cons request rest ih =>
    intro s hs
    obtain ⟨hnext, hfirst⟩ := answer_succeeds hs request
    obtain ⟨hrest, hothers⟩ := ih hnext.settled
    refine ⟨hrest.trans hnext, ?_⟩
    rintro d ⟨ds, hds, hd⟩
    rcases List.mem_cons.1 hds with hds | hds
    · exact (hfirst ds hds.symm d hd).mono hrest
    · exact hothers d ⟨ds, hds, hd⟩

/-! ### What is handed out -/

/-- **Every derivation that a session hands out is genuine, non-circular and unique**,
    whatever else it is asked before and after, and whether or not that succeeds.
    Between two requests no goal is open. -/
theorem answers_genuine (db : Database) (maxDepth : Nat) (requests : List Request) :
    let outcome := answers requests (start db maxDepth)
    (outcome.2.memory.path = [] ∧ outcome.2.memory.onPath = []) ∧
      (∀ d, HandedOut outcome.1 d →
        (∀ n ∈ d.nodes, n.Justified db) ∧
          ∀ branch, d.Branch branch → (branch.map Derivation.atom).Nodup) ∧
      ∀ d e, HandedOut outcome.1 d → HandedOut outcome.1 e →
        ∀ m ∈ d.nodes, ∀ n ∈ e.nodes, m.atom = n.atom → m = n := by
  intro outcome
  obtain ⟨hnext, hkept⟩ := answers_succeed requests (settled_start db maxDepth)
  have hcoh : Derivation.Coherent db outcome.2.memory.proven := by
    have := hnext.settled.coherent
    rwa [hnext.database] at this
  have hnode : ∀ d, HandedOut outcome.1 d → ∀ n ∈ d.nodes, outcome.2.Keeps n := by
    intro d hd
    exact hcoh.lookup_node (hkept d hd)
  refine ⟨⟨hnext.settled.path, hnext.settled.onPath⟩, fun d hd => ⟨?_, ?_⟩, ?_⟩
  · intro n hn
    exact hcoh.justified (hnode d hd n hn)
  · intro branch hbranch
    exact hbranch.nodup_atoms fun n hn m hm => hcoh.acyclic (hnode d hd n hn) m hm
  · intro d e hd he m hm n hn hatom
    have hm' := hnode d hd m hm
    have hn' := hnode e he n hn
    rw [Keeps, hatom, hn'] at hm'
    exact (Option.some.inj hm').symm

end Session

end HornPlan
