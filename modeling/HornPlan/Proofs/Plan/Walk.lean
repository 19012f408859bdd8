/-
  HornPlan/Proofs/Plan/Walk.lean
  ==============================
  **What the walk over some proofs finds.**

  The walk that reads a plan off proofs keeps the slot of every tuple it has met, and
  the clauses whose steps it has taken.  Neither depends on the way it has come.  The
  slot of a tuple is determined by its proof (`home`), and is of its type (`type_home`);
  and the steps are those of the nodes of `firsts`, each with its input bound to the slot
  of its first child (`step?`).

  `Traced` says this of a walk after some nodes.  It is kept from node to node as long
  as children come before their parent (`Traced.add`), hence over whole proofs
  (`traced`).
-/
import HornPlan.Plan.Extraction
import HornPlan.Proofs.Derivation.Forest
import Mathlib.Data.List.Induction

namespace HornPlan

/-! ### Slots and steps of nodes -/

namespace Derivation

/-- Is a value that is proved in this way the value that the first child proves? -/
def borrows (kind : ClauseKind) (first : Atom) : Bool :=
  (kind = .generalization ∨ kind = .assignment ∨ kind = .completion) ∧ first.asResource?.isSome

/-- The node whose value it is that a node proves. -/
def source : Derivation → Derivation
  | ⟨atom, clause, kind, []⟩ => ⟨atom, clause, kind, []⟩
  | ⟨atom, clause, kind, first :: rest⟩ =>
    if borrows kind first.atom then first.source else ⟨atom, clause, kind, first :: rest⟩

/-- The slot in which the value of a proved tuple is found. -/
def home (n : Derivation) : Tuple := n.source.atom.subject

/-- The step that a node contributes: the step of its clause, which reads the slot of
    the first child. -/
def step? (db : Database) (n : Derivation) : Option Step :=
  (db.clauses[n.clause]?.bind Clause.step).map fun s =>
    { s with input := (n.children.head?.map home).getD s.input }

/-- The instance that a fact states. -/
def input? (n : Derivation) : Option Tuple :=
  if n.kind = .inputFact then n.atom.asResource? else none

end Derivation

/-- What a step reads is the first thing that its clause asks for. -/
def Database.ReadsFirst (db : Database) : Prop :=
  ∀ c ∈ db.clauses, ∀ s, c.step = some s →
    c.kind ≠ .inputFact ∧ c.body.head? = some (.resource s.input)

theorem Database.Formed.readsFirst {db : Database} (h : db.Formed) : db.ReadsFirst :=
  fun c hc _ hs => (h c hc).readsFirst hs

namespace Derivation

theorem exists_resource_of_borrows {kind : ClauseKind} {first : Atom}
    (h : borrows kind first = true) :
    (kind = .generalization ∨ kind = .assignment ∨ kind = .completion) ∧
      ∃ u, first = .resource u := by
  obtain ⟨hkind, hresource⟩ := of_decide_eq_true h
  cases first with
  | resource u => exact ⟨hkind, u, rfl⟩
  | property p u => cases hresource
  | allDependencies u => cases hresource

/-- **A proved tuple is found in a slot of its type.** -/
theorem type_home {db : Database} (hformed : db.Formed) {n : Derivation} :
    (∀ m ∈ n.nodes, m.Justified db) → ∀ {t}, n.atom = .resource t → n.home.type = t.type := by
  induction n with
  | node atom clause kind children ih =>
    intro hall t ht
    dsimp only at ht
    rcases children with _ | ⟨first, rest⟩
    · rw [home, source, ht]
      rfl
    · by_cases hborrows : borrows kind first.atom = true
      · -- the value is that of the first child, and the clause is about one type
        obtain ⟨hkind, u, hfirst⟩ := exists_resource_of_borrows hborrows
        obtain ⟨c, hget, hhead, rfl, hbody⟩ := (hall _ (self_mem_nodes _)).clause
        have hrule : c.kind ≠ .inputFact := by
          intro hk
          simp [hk] at hkind
        have hasks : c.body.head? = some (.resource u) := by
          rw [← hbody hrule, ← hfirst]
          rfl
        have hsame : u.type = t.type :=
          (hformed c (List.mem_of_getElem? hget)).type_eq hkind (hhead.trans ht) hasks
        have htype : first.home.type = u.type := by
          apply ih first List.mem_cons_self _ hfirst
          exact fun m hm => hall m (Below.mem_nodes ⟨first, List.mem_cons_self, hm⟩)
        rw [home, source, if_pos hborrows]
        exact htype.trans hsame
      · rw [home, source, if_neg hborrows, ht]
        rfl

end Derivation

namespace Plan

open HornPlan.Derivation

/-! ### Node by node -/

/-- What the walk does at a node whose children it has been through. -/
def Walk.add (db : Database) (w : Walk) (n : Derivation) : Walk :=
  (w.note n.atom n.kind (n.children.head?.map Derivation.atom)).take n.clause
    (db.clauses[n.clause]?.bind Clause.step)

theorem Walk.visit_eq (db : Database) (d : Derivation) :
    ∀ w, Walk.visit db d w = d.nodes.foldl (Walk.add db) w := by
  induction d with
  | node atom clause kind children ih =>
    have hall : ∀ ds : List Derivation,
        (∀ d ∈ ds, ∀ w, Walk.visit db d w = d.nodes.foldl (Walk.add db) w) →
          ∀ w, Walk.visitAll db ds w = (ds.flatMap nodes).foldl (Walk.add db) w := by
      intro ds
      induction ds with
      | nil => exact fun _ _ => rfl
      | cons d rest ihds =>
        intro hds w
        rw [Walk.visitAll, hds d List.mem_cons_self, List.flatMap_cons, List.foldl_append]
        exact ihds (fun e he => hds e (List.mem_cons_of_mem _ he)) _
    intro w
    rw [Walk.visit, hall children ih, nodes_eq, List.foldl_append]
    rfl

/-- The walk goes through the nodes in post-order. -/
theorem Walk.visitAll_eq (db : Database) (ds : List Derivation) :
    ∀ w, Walk.visitAll db ds w = (nodesAll ds).foldl (Walk.add db) w := by
  induction ds with
  | nil => exact fun _ => rfl
  | cons d rest ih =>
    intro w
    rw [Walk.visitAll, Walk.visit_eq, ih, nodesAll, List.foldl_append]

/-! ### What has been found after some nodes -/

/-- What a walk has found after the nodes of `seen`. -/
structure Traced (db : Database) (seen : List Derivation) (w : Walk) : Prop where
  slots : ∀ n ∈ seen, ∀ t, n.atom = .resource t → w.slots.lookup t = some n.home
  steps : w.steps = (distinct [] seen).filterMap (step? db)
  taken : ∀ i, i ∈ w.taken ↔ ∃ n ∈ seen, n.clause = i ∧ (step? db n).isSome
  firstInput : w.firstInput = seen.findSome? input?

theorem Traced.start (db : Database) : Traced db [] .start where
  slots _ hn := nomatch hn
  steps := rfl
  taken _ := ⟨fun h => (nomatch h), fun ⟨_, h, _⟩ => nomatch h⟩
  firstInput := rfl

theorem Traced.slot_eq {db : Database} {seen : List Derivation} {w : Walk} (h : Traced db seen w)
    {n : Derivation} (hn : n ∈ seen) {t : Tuple} (ht : n.atom = .resource t) :
    w.slot t = n.home := by
  rw [Walk.slot, h.slots n hn t ht, Option.getD_some]

theorem Walk.take_slots (w : Walk) (i : Nat) (s : Option Step) : (w.take i s).slots = w.slots := by
  unfold take
  split
  · split <;> rfl
  · rfl

theorem Walk.take_firstInput (w : Walk) (i : Nat) (s : Option Step) :
    (w.take i s).firstInput = w.firstInput := by
  unfold take
  split
  · split <;> rfl
  · rfl

theorem Walk.note_steps (w : Walk) (a : Atom) (k : ClauseKind) (first : Option Atom) :
    (w.note a k first).steps = w.steps ∧ (w.note a k first).taken = w.taken := by
  unfold note
  split <;> exact ⟨rfl, rfl⟩

/-- The slot that the walk gives to the tuple of a node, once it knows those of the
    children. -/
theorem Traced.slotOf_eq {db : Database} {seen : List Derivation} {w : Walk}
    (h : Traced db seen w) {n : Derivation} (hchildren : ∀ c ∈ n.children, c ∈ seen) {t : Tuple}
    (ht : n.atom = .resource t) :
    w.slotOf t n.kind (n.children.head?.map Derivation.atom) = n.home := by
  obtain ⟨atom, clause, kind, children⟩ := n
  subst ht
  cases children with
  | nil => cases kind <;> rfl
  | cons first rest =>
    have hslot : ∀ s, first.atom = .resource s → w.slot s = first.source.atom.subject := by
      intro s hs
      exact h.slot_eq (hchildren first List.mem_cons_self) hs
    rw [home, source]
    rcases hfirst : first.atom with s | ⟨p, s⟩ | s <;> cases kind <;>
      simp [Walk.slotOf, borrows, Atom.asResource?, Atom.subject, hfirst, hslot]

section Add

variable {db : Database} {ds seen : List Derivation} {w : Walk} {n : Derivation}

/-- Two nodes of one clause are the same. -/
theorem eq_of_clause_eq (hds : Genuine db ds) {m : Derivation} (hm : m ∈ nodesAll ds)
    (hn : n ∈ nodesAll ds) (h : m.clause = n.clause) : m = n := by
  obtain ⟨c, hc, hhead, -⟩ := (hds.justified m hm).clause
  obtain ⟨c', hc', hhead', -⟩ := (hds.justified n hn).clause
  rw [h, hc'] at hc
  cases hc
  exact hds.unique m hm n hn (hhead.symm.trans hhead')

/-- The first child of a node with a step proves what the step reads. -/
theorem first_of_step (hreads : db.ReadsFirst) (hn : n.Justified db) {s : Step}
    (hs : db.clauses[n.clause]?.bind Clause.step = some s) :
    ∃ first rest, n.children = first :: rest ∧ first.atom = .resource s.input := by
  obtain ⟨c, hc, -, hkind, hbody⟩ := hn.clause
  rw [hc, Option.bind_some] at hs
  obtain ⟨hrule, hfirst⟩ := hreads c (List.mem_of_getElem? hc) s hs
  have hbody := hbody (hkind ▸ hrule)
  rcases hchildren : n.children with _ | ⟨first, rest⟩
  · rw [hchildren] at hbody
    rw [← hbody] at hfirst
    cases hfirst
  · rw [hchildren] at hbody
    rw [← hbody] at hfirst
    exact ⟨first, rest, rfl, Option.some.inj hfirst⟩

section Next

variable (hds : Genuine db ds) (hreads : db.ReadsFirst) (h : Traced db seen w)
  (hseen : ∀ m ∈ seen, m ∈ nodesAll ds) (hn : n ∈ nodesAll ds)
  (hchildren : ∀ c ∈ n.children, c ∈ seen)
include hds h hseen hn hchildren

/-- After the node the slots of all tuples that have been met are known. -/
theorem Traced.add_slots : ∀ m ∈ seen ++ [n], ∀ t, m.atom = .resource t →
    (w.add db n).slots.lookup t = some m.home := by
  intro m hm t ht
  rw [Walk.add, Walk.take_slots]
  by_cases hmn : m = n
  · subst hmn
    rw [ht, Walk.note, lookup_insert, if_pos rfl, h.slotOf_eq hchildren ht]
  · have hm : m ∈ seen := by simpa [hmn] using hm
    have hne : m.atom ≠ n.atom := by
      intro heq
      exact hmn (hds.unique m (hseen m hm) n hn heq)
    unfold Walk.note
    split
    · rename_i t' ht'
      have htt' : t ≠ t' := by
        rintro rfl
        exact hne (ht.trans ht'.symm)
      rw [lookup_insert, if_neg htt']
      exact h.slots m hm t ht
    · exact h.slots m hm t ht

include hreads in
/-- The node adds its step unless its clause has been taken, and is taken if it has a
    step. -/
theorem Traced.add_take :
    (w.add db n).steps = w.steps ++ (if n.clause ∈ w.taken then [] else (step? db n).toList) ∧
      ∀ i, i ∈ (w.add db n).taken ↔ i ∈ w.taken ∨ n.clause = i ∧ (step? db n).isSome := by
  have hslots := h.add_slots hds hseen hn hchildren
  have hnote := w.note_steps n.atom n.kind (n.children.head?.map Derivation.atom)
  rcases hclause : db.clauses[n.clause]?.bind Clause.step with _ | s
  · have hnone : step? db n = none := by rw [step?, hclause, Option.map_none]
    simp [Walk.add, hclause, Walk.take, hnote, hnone]
  · obtain ⟨first, rest, hfc, hfa⟩ := first_of_step hreads (hds.justified n hn) hclause
    have hsome : step? db n = some { s with input := first.home } := by
      rw [step?, hclause, hfc]
      rfl
    -- what the node has just been given is not what its step reads
    have hslot : (w.note n.atom n.kind (n.children.head?.map Derivation.atom)).slot s.input =
        first.home := by
      have hmem : first ∈ n.children := hfc ▸ List.mem_cons_self
      have hfirst := hslots first (List.mem_append_left _ (hchildren first hmem)) s.input hfa
      rw [Walk.add, Walk.take_slots] at hfirst
      rw [Walk.slot, hfirst, Option.getD_some]
    rw [Walk.add, hclause, Walk.take, hnote.2, hsome]
    split
    · rename_i htaken
      refine ⟨by rw [hnote.1, List.append_nil], ?_⟩
      intro i
      rw [hnote.2]
      exact ⟨Or.inl, fun hi => hi.elim id fun hi => hi.1 ▸ htaken⟩
    · refine ⟨by rw [hnote.1, hslot]; rfl, ?_⟩
      intro i
      rw [List.mem_cons, or_comm, eq_comm]
      exact or_congr Iff.rfl ⟨fun hi => ⟨hi, rfl⟩, fun hi => hi.1⟩

omit hchildren in
/-- The clause of a node with a step has been taken exactly if its atom has been met. -/
theorem Traced.taken_iff (hstep : (step? db n).isSome) :
    n.clause ∈ w.taken ↔ n.atom ∈ seen.map Derivation.atom := by
  rw [h.taken, List.mem_map]
  constructor
  · rintro ⟨m, hm, hclause, -⟩
    rw [← eq_of_clause_eq hds (hseen m hm) hn hclause]
    exact ⟨m, hm, rfl⟩
  · rintro ⟨m, hm, hatom⟩
    rw [← hds.unique m (hseen m hm) n hn hatom] at hstep ⊢
    exact ⟨m, hm, rfl, hstep⟩

omit hds hseen hn hchildren in
theorem Traced.add_firstInput :
    (w.add db n).firstInput = (seen ++ [n]).findSome? input? := by
  rw [Walk.add, Walk.take_firstInput, List.findSome?_append, ← h.firstInput]
  rcases hatom : n.atom with t | ⟨p, t⟩ | t
  · by_cases hk : n.kind = .inputFact <;> simp [Walk.note, input?, hatom, hk, Atom.asResource?]
  · simp [Walk.note, input?, hatom, Atom.asResource?]
  · simp [Walk.note, input?, hatom, Atom.asResource?]

include hreads in
/-- What has been found after one node more. -/
theorem Traced.add : Traced db (seen ++ [n]) (w.add db n) := by
  obtain ⟨hsteps, htaken⟩ := h.add_take hds hreads hseen hn hchildren
  refine ⟨h.add_slots hds hseen hn hchildren, ?_, ?_, h.add_firstInput⟩
  · have hdistinct : distinct [] (seen ++ [n]) =
        distinct [] seen ++ if n.atom ∈ seen.map Derivation.atom then [] else [n] := by
      rw [distinct_append, List.append_nil, distinct]
      rfl
    rw [hsteps, hdistinct, List.filterMap_append, ← h.steps]
    congr 1
    rcases hstep : step? db n with _ | s
    · split <;> split <;> simp [hstep]
    · have hiff := h.taken_iff hds hseen hn (by rw [hstep]; rfl)
      by_cases hmem : n.atom ∈ seen.map Derivation.atom
      · rw [if_pos (hiff.2 hmem), if_pos hmem]
        rfl
      · rw [if_neg (mt hiff.1 hmem), if_neg hmem]
        simp [hstep]
  · intro i
    rw [htaken, h.taken]
    simp only [List.mem_append, List.mem_singleton, or_and_right, exists_or, exists_eq_left]

end Next

end Add

/-- **What a walk over genuine proofs finds.** -/
theorem traced {db : Database} {ds : List Derivation} (hds : Genuine db ds)
    (hreads : db.ReadsFirst) : Traced db (nodesAll ds) (Walk.visitAll db ds .start) := by
  rw [Walk.visitAll_eq]
  have hfold : ∀ seen, (∃ later, nodesAll ds = seen ++ later) →
      Traced db seen (seen.foldl (Walk.add db) .start) := by
    intro seen
    induction seen using List.reverseRecOn with
    | nil => exact fun _ => Traced.start db
    | append_singleton seen n ih =>
      rintro ⟨later, hl⟩
      have hl' : nodesAll ds = seen ++ n :: later := by
        rw [hl, List.append_assoc, List.singleton_append]
      rw [List.foldl_append]
      refine (ih ⟨n :: later, hl'⟩).add hds hreads (fun m hm => ?_) ?_ ?_
      · exact hl' ▸ List.mem_append_left _ hm
      · exact hl' ▸ List.mem_append_right _ List.mem_cons_self
      · exact childrenFirst_nodesAll ds seen n later hl'
  exact hfold _ ⟨[], (List.append_nil _).symm⟩

/-- **The plan of genuine proofs**: the steps of their nodes, each once and after all
    that is below it, and the slot of the last proof. -/
theorem ofDerivations_eq_ok {db : Database} {ds : List (Tuple × Derivation)} {p : Plan}
    (hds : Genuine db (ds.map Prod.snd)) (hreads : db.ReadsFirst)
    (hatoms : ∀ td ∈ ds, td.2.atom = .resource td.1) (h : ofDerivations db ds = .ok p) :
    ∃ last, ds.getLast? = some last ∧
      p.steps = (firsts (ds.map Prod.snd)).filterMap (step? db) ∧ p.output = last.2.home ∧
      p.input = ((nodesAll (ds.map Prod.snd)).findSome? input?).getD p.output := by
  have htraced := traced hds hreads
  unfold ofDerivations at h
  split at h
  · cases h
  · rename_i last d hlast
    cases h
    have hmem : (last, d) ∈ ds := List.mem_of_getLast? hlast
    have hnode : d ∈ nodesAll (ds.map Prod.snd) :=
      mem_nodesAll.2 ⟨d, List.mem_map_of_mem hmem, d.self_mem_nodes⟩
    refine ⟨(last, d), hlast, htraced.steps, htraced.slot_eq hnode (hatoms _ hmem), ?_⟩
    rw [← htraced.firstInput]

end Plan

end HornPlan
