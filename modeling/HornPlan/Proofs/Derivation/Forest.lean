/-
  HornPlan/Proofs/Derivation/Forest.lean
  ======================================
  **Proofs that share their parts.**

  The proofs of several goals may contain the same proof many times over.  As trees
  they repeat it; what a plan needs is every part once, after the parts that it is
  made of.  `firsts` lists the nodes of some proofs in this way: in post-order, each
  atom where it comes up first.

  `Genuine` collects what a session guarantees of the proofs that it hands out
  together: their nodes are justified, an atom is proved in one way only, and no atom
  occurs below itself.
-/
import HornPlan.Proofs.Search.Requests

namespace HornPlan.Derivation

/-! ### Children before their parent -/

/-- Every node of the list has its children before it. -/
def ChildrenFirst (l : List Derivation) : Prop :=
  ∀ before n after, l = before ++ n :: after → ∀ c ∈ n.children, c ∈ before

theorem ChildrenFirst.nil : ChildrenFirst [] := by
  intro before n after h
  simp at h

theorem ChildrenFirst.append {l m : List Derivation} (hl : ChildrenFirst l)
    (hm : ∀ before n after, m = before ++ n :: after → ∀ c ∈ n.children, c ∈ l ++ before) :
    ChildrenFirst (l ++ m) := by
  intro before n after h c hc
  rcases List.append_eq_append_iff.1 h with ⟨a, hbefore, ha⟩ | ⟨a, h, ha⟩
  · rw [hbefore]
    exact hm a n after ha c hc
  · cases a with
    | nil =>
      rw [List.append_nil] at h
      rw [List.nil_append] at ha
      subst h
      simpa using hm [] n after ha.symm c hc
    | cons x a =>
      injection ha with hx ha
      subst hx
      exact hl before n a h c hc

theorem childrenFirst_nodes (d : Derivation) : ChildrenFirst d.nodes := by
  induction d with
  | node atom clause kind children ih =>
    have hall : ∀ ds : List Derivation, (∀ d ∈ ds, ChildrenFirst d.nodes) →
        ChildrenFirst (ds.flatMap nodes) := by
      intro ds
      induction ds with
      | nil => exact fun _ => ChildrenFirst.nil
      | cons d rest ihds =>
        intro hds
        rw [List.flatMap_cons]
        apply (hds d List.mem_cons_self).append
        intro before n after h c hc
        exact List.mem_append_right _
          (ihds (fun e he => hds e (List.mem_cons_of_mem _ he)) before n after h c hc)
    rw [nodes_eq]
    apply (hall children ih).append
    intro before n after h c hc
    -- the root comes last, and its children are roots of what is before it
    rcases List.singleton_eq_append_iff.1 h with ⟨rfl, h⟩ | ⟨-, h⟩
    · injection h with hn _
      subst hn
      exact List.mem_append_left _ (List.mem_flatMap.2 ⟨c, hc, c.self_mem_nodes⟩)
    · exact absurd h (List.cons_ne_nil _ _)

theorem childrenFirst_nodesAll (ds : List Derivation) : ChildrenFirst (nodesAll ds) := by
  induction ds with
  | nil => exact ChildrenFirst.nil
  | cons d rest ih =>
    exact (childrenFirst_nodes d).append fun before n after h c hc =>
      List.mem_append_right _ (ih before n after h c hc)

theorem ChildrenFirst.of_append {l m : List Derivation} (h : ChildrenFirst (l ++ m)) :
    ChildrenFirst l := by
  intro before n after hl
  apply h before n (after ++ m)
  rw [hl, List.append_assoc, List.cons_append]

/-- Of a node that is listed all nodes are listed. -/
theorem ChildrenFirst.nodes_subset {l : List Derivation} (h : ChildrenFirst l) {n : Derivation}
    (hn : n ∈ l) : n.nodes ⊆ l := by
  induction n with
  | node atom clause kind children ih =>
    intro m hm
    rcases mem_nodes.1 hm with rfl | ⟨c, hc, hm⟩
    · exact hn
    · obtain ⟨before, after, hl⟩ := List.append_of_mem hn
      have hmem : c ∈ before := h before _ after hl c hc
      exact ih c hc (hl ▸ List.mem_append_left _ hmem) hm

/-- What is below a node is listed before it. -/
theorem ChildrenFirst.below {before after : List Derivation} {n m : Derivation}
    (h : ChildrenFirst (before ++ n :: after)) (hm : m.Below n) : m ∈ before := by
  obtain ⟨c, hc, hm⟩ := hm
  exact h.of_append.nodes_subset (h before n after rfl c hc) hm

/-- What is below a node is a child of some node of it. -/
theorem Below.exists_parent {n d : Derivation} (h : n.Below d) : ∃ m ∈ d.nodes, n ∈ m.children := by
  induction d with
  | node atom clause kind children ih =>
    obtain ⟨c, hc, hn⟩ := h
    rcases Derivation.mem_nodes.1 hn with rfl | hn
    · exact ⟨_, self_mem_nodes _, hc⟩
    · obtain ⟨m, hm, hchild⟩ := ih c hc hn
      exact ⟨m, Below.mem_nodes ⟨c, hc, hm⟩, hchild⟩

theorem mem_nodesAll {ds : List Derivation} {n : Derivation} :
    n ∈ nodesAll ds ↔ ∃ d ∈ ds, n ∈ d.nodes := by
  rw [nodesAll_eq, List.mem_flatMap]

theorem mem_nodesAll_of_mem_nodes {ds : List Derivation} {n m : Derivation} (hn : n ∈ nodesAll ds)
    (hm : m ∈ n.nodes) : m ∈ nodesAll ds := by
  obtain ⟨root, hroot, hn⟩ := mem_nodesAll.1 hn
  exact mem_nodesAll.2 ⟨root, hroot, mem_nodes_trans hm hn⟩

/-- What is not one of some proofs is asked for by a node of theirs. -/
theorem exists_parent_of_mem {ds : List Derivation} {n : Derivation} (hn : n ∈ nodesAll ds)
    (hroot : n ∉ ds) : ∃ m ∈ nodesAll ds, n ∈ m.children := by
  obtain ⟨d, hd, hn⟩ := mem_nodesAll.1 hn
  rcases mem_nodes.1 hn with rfl | hbelow
  · exact absurd hd hroot
  · obtain ⟨m, hm, hchild⟩ := hbelow.exists_parent
    exact ⟨m, mem_nodesAll.2 ⟨d, hd, hm⟩, hchild⟩

/-! ### Each atom once -/

/-- The derivations whose atom comes up for the first time and has not been seen. -/
def distinct : (seen : List Atom) → List Derivation → List Derivation
  | _, [] => []
  | seen, d :: rest =>
    if d.atom ∈ seen then distinct seen rest else d :: distinct (d.atom :: seen) rest

theorem distinct_congr {s s' : List Atom} {l : List Derivation}
    (h : ∀ d ∈ l, d.atom ∈ s ↔ d.atom ∈ s') : distinct s l = distinct s' l := by
  induction l generalizing s s' with
  | nil => rfl
  | cons d rest ih =>
    have hrest : ∀ e ∈ rest, e.atom ∈ s ↔ e.atom ∈ s' := by
      intro e he
      exact h e (List.mem_cons_of_mem _ he)
    unfold distinct
    by_cases hd : d.atom ∈ s
    · rw [if_pos hd, if_pos ((h d List.mem_cons_self).1 hd)]
      exact ih hrest
    · rw [if_neg hd, if_neg (mt (h d List.mem_cons_self).2 hd), ih fun e he => ?_]
      rw [List.mem_cons, List.mem_cons, hrest e he]

theorem distinct_append (s : List Atom) (l m : List Derivation) :
    distinct s (l ++ m) = distinct s l ++ distinct (l.map atom ++ s) m := by
  induction l generalizing s with
  | nil => rfl
  | cons d rest ih =>
    rw [List.cons_append, distinct, distinct]
    by_cases hd : d.atom ∈ s
    · rw [if_pos hd, if_pos hd, ih]
      refine congrArg _ (distinct_congr fun e _ => ?_)
      rw [List.map_cons, List.cons_append, List.mem_cons]
      refine ⟨Or.inr, ?_⟩
      intro he
      rcases he with he | he
      · exact List.mem_append_right _ (he ▸ hd)
      · exact he
    · rw [if_neg hd, if_neg hd, ih, List.cons_append]
      refine congrArg (fun r => d :: (_ ++ r)) (distinct_congr fun e _ => ?_)
      simp only [List.map_cons, List.cons_append, List.mem_append, List.mem_cons]
      exact or_left_comm

theorem distinct_eq_nil {s : List Atom} {l : List Derivation} (h : ∀ d ∈ l, d.atom ∈ s) :
    distinct s l = [] := by
  induction l with
  | nil => rfl
  | cons d rest ih =>
    rw [distinct, if_pos (h d List.mem_cons_self)]
    exact ih fun e he => h e (List.mem_cons_of_mem _ he)

/-- What only repeats atoms adds nothing. -/
theorem distinct_append_of_subset {s : List Atom} {l m : List Derivation}
    (h : ∀ d ∈ m, d.atom ∈ l.map atom) : distinct s (l ++ m) = distinct s l := by
  rw [distinct_append, distinct_eq_nil fun d hd => List.mem_append_left _ (h d hd),
    List.append_nil]

theorem mem_of_mem_distinct {s : List Atom} {l : List Derivation} {n : Derivation}
    (h : n ∈ distinct s l) : n ∈ l ∧ n.atom ∉ s := by
  induction l generalizing s with
  | nil => cases h
  | cons d rest ih =>
    unfold distinct at h
    split at h
    · exact ⟨List.mem_cons_of_mem _ (ih h).1, (ih h).2⟩
    · rename_i hd
      rcases List.mem_cons.1 h with rfl | h
      · exact ⟨List.mem_cons_self, hd⟩
      · exact ⟨List.mem_cons_of_mem _ (ih h).1,
          fun hs => (ih h).2 (List.mem_cons_of_mem _ hs)⟩

theorem exists_mem_distinct {s : List Atom} {l : List Derivation} {n : Derivation} (hn : n ∈ l)
    (hs : n.atom ∉ s) : ∃ m ∈ distinct s l, m.atom = n.atom := by
  induction l generalizing s with
  | nil => cases hn
  | cons d rest ih =>
    unfold distinct
    split
    · rename_i hd
      rcases List.mem_cons.1 hn with rfl | hn
      · exact absurd hd hs
      · exact ih hn hs
    · by_cases heq : d.atom = n.atom
      · exact ⟨d, List.mem_cons_self, heq⟩
      · rcases List.mem_cons.1 hn with rfl | hn
        · exact absurd rfl heq
        · obtain ⟨m, hm, hatom⟩ := ih hn (s := d.atom :: s) fun h => by
            rcases List.mem_cons.1 h with h | h
            · exact heq h.symm
            · exact hs h
          exact ⟨m, List.mem_cons_of_mem _ hm, hatom⟩

theorem nodup_distinct (s : List Atom) (l : List Derivation) :
    ((distinct s l).map atom).Nodup := by
  induction l generalizing s with
  | nil => exact List.nodup_nil
  | cons d rest ih =>
    unfold distinct
    split
    · exact ih s
    · rw [List.map_cons, List.nodup_cons]
      refine ⟨?_, ih _⟩
      intro h
      obtain ⟨e, he, heq⟩ := List.mem_map.1 h
      exact (mem_of_mem_distinct he).2 (heq ▸ List.mem_cons_self)

/-- A node of the result splits the list where it comes up first. -/
theorem split_of_distinct {s : List Atom} {l before after : List Derivation} {n : Derivation}
    (h : distinct s l = before ++ n :: after) :
    ∃ l₁ l₂, l = l₁ ++ n :: l₂ ∧ before = distinct s l₁ := by
  induction l generalizing s before with
  | nil => simp [distinct] at h
  | cons d rest ih =>
    unfold distinct at h
    split at h
    · rename_i hd
      obtain ⟨l₁, l₂, rfl, rfl⟩ := ih h
      exact ⟨d :: l₁, l₂, rfl, by rw [distinct, if_pos hd]⟩
    · rename_i hd
      cases before with
      | nil =>
        injection h with hn _
        subst hn
        exact ⟨[], rest, rfl, rfl⟩
      | cons b before =>
        injection h with hb h
        subst hb
        obtain ⟨l₁, l₂, rfl, rfl⟩ := ih h
        exact ⟨d :: l₁, l₂, rfl, by rw [distinct, if_neg hd]⟩

/-- Selecting by a property of the atom and dropping repetitions commute. -/
theorem filter_distinct {p : Derivation → Bool} (hp : ∀ d e, d.atom = e.atom → p d = p e)
    {s s' : List Atom} {l : List Derivation} (hs : ∀ d ∈ l, p d → (d.atom ∈ s ↔ d.atom ∈ s')) :
    (distinct s l).filter p = distinct s' (l.filter p) := by
  induction l generalizing s s' with
  | nil => rfl
  | cons d rest ih =>
    have hrest : ∀ e ∈ rest, p e → (e.atom ∈ s ↔ e.atom ∈ s') := by
      intro e he
      exact hs e (List.mem_cons_of_mem _ he)
    rcases hpd : p d with _ | _
    · rw [List.filter_cons_of_neg (Bool.eq_false_iff.1 hpd), distinct]
      split
      · exact ih hrest
      · rw [List.filter_cons_of_neg (Bool.eq_false_iff.1 hpd)]
        apply ih
        intro e he hpe
        have hne : e.atom ≠ d.atom := by
          intro heq
          rw [hp e d heq, hpd] at hpe
          cases hpe
        rw [List.mem_cons, hrest e he hpe]
        exact ⟨fun h => h.resolve_left hne, Or.inr⟩
    · rw [List.filter_cons_of_pos hpd, distinct, distinct]
      have hd := hs d List.mem_cons_self hpd
      by_cases hmem : d.atom ∈ s
      · rw [if_pos hmem, if_pos (hd.1 hmem)]
        exact ih hrest
      · rw [if_neg hmem, if_neg (mt hd.2 hmem), List.filter_cons_of_pos hpd]
        refine congrArg _ (ih fun e he hpe => ?_)
        rw [List.mem_cons, List.mem_cons, hrest e he hpe]

/-- The nodes of some proofs, children before their parent, each atom once. -/
def firsts (ds : List Derivation) : List Derivation := distinct [] (nodesAll ds)

theorem nodup_firsts (ds : List Derivation) : ((firsts ds).map atom).Nodup :=
  nodup_distinct [] (nodesAll ds)

/-! ### What a session hands out together -/

/-- Proofs that a session may hand out together. -/
structure Genuine (db : Database) (ds : List Derivation) : Prop where
  justified : ∀ n ∈ nodesAll ds, n.Justified db
  unique : ∀ m ∈ nodesAll ds, ∀ n ∈ nodesAll ds, m.atom = n.atom → m = n
  acyclic : ∀ n ∈ nodesAll ds, ∀ m : Derivation, m.Below n → m.atom ≠ n.atom

/-- Proofs that are kept in one coherent memory are genuine. -/
theorem Coherent.genuine {db : Database} {p : Proven} (h : Coherent db p) {ds : List Derivation}
    (hds : ∀ d ∈ ds, p.lookup d.atom = some d) : Genuine db ds := by
  have hnode : ∀ n ∈ nodesAll ds, p.lookup n.atom = some n := by
    intro n hn
    obtain ⟨d, hd, hn⟩ := mem_nodesAll.1 hn
    exact h.lookup_node (hds d hd) n hn
  refine ⟨fun n hn => h.justified (hnode n hn), ?_, fun n hn => h.acyclic (hnode n hn)⟩
  intro m hm n hn hatom
  have hm := hnode m hm
  rw [hatom, hnode n hn] at hm
  exact (Option.some.inj hm).symm

namespace Genuine

variable {db : Database} {ds : List Derivation} (h : Genuine db ds)
include h

theorem mem_firsts {n : Derivation} : n ∈ firsts ds ↔ n ∈ nodesAll ds := by
  refine ⟨fun hn => (mem_of_mem_distinct hn).1, ?_⟩
  intro hn
  obtain ⟨m, hm, hatom⟩ := exists_mem_distinct (s := []) hn (by simp)
  rw [← h.unique m (mem_of_mem_distinct hm).1 n hn hatom]
  exact hm

/-- Before a node of `firsts` stands what comes before it in post-order. -/
theorem split_firsts {before after : List Derivation} {n : Derivation}
    (hsplit : firsts ds = before ++ n :: after) :
    ∃ earlier later, nodesAll ds = earlier ++ n :: later ∧ before = distinct [] earlier ∧
      ∀ m, m ∈ before ↔ m ∈ earlier := by
  obtain ⟨earlier, later, hl, rfl⟩ := split_of_distinct hsplit
  refine ⟨earlier, later, hl, rfl, fun m => ⟨fun hm => (mem_of_mem_distinct hm).1, ?_⟩⟩
  intro hm
  obtain ⟨m', hm', hatom⟩ := exists_mem_distinct (s := []) hm (by simp)
  have hsub : ∀ k ∈ earlier, k ∈ nodesAll ds := by
    intro k hk
    exact hl ▸ List.mem_append_left _ hk
  rw [← h.unique m' (hsub m' (mem_of_mem_distinct hm').1) m (hsub m hm) hatom]
  exact hm'

/-- What is below a node stands before it. -/
theorem below_firsts {before after : List Derivation} {n m : Derivation}
    (hsplit : firsts ds = before ++ n :: after) (hm : m.Below n) : m ∈ before := by
  obtain ⟨earlier, later, hl, -, hmem⟩ := h.split_firsts hsplit
  exact (hmem m).2 (ChildrenFirst.below (hl ▸ childrenFirst_nodesAll ds) hm)

end Genuine

end HornPlan.Derivation

namespace HornPlan.Session

/-- The proofs of some tuples are genuine, and prove the tuples in their order. -/
theorem Settled.deriveAll_genuine {s : Session} (hs : s.Settled) {ts : List Tuple}
    {ds : List (Tuple × Derivation)} (h : (deriveAll ts s).1 = .ok ds) :
    Derivation.Genuine s.database (ds.map Prod.snd) ∧ ds.map Prod.fst = ts ∧
      ∀ td ∈ ds, td.2.atom = .resource td.1 := by
  obtain ⟨hnext, hall⟩ := deriveAll_succeeds ts hs
  obtain ⟨htuples, hproofs⟩ := hall ds h
  have hcoh := hnext.settled.coherent
  rw [hnext.database] at hcoh
  refine ⟨hcoh.genuine fun d hd => ?_, htuples, fun td htd => (hproofs td htd).2⟩
  obtain ⟨td, htd, rfl⟩ := List.mem_map.1 hd
  exact (hproofs td htd).1

theorem derive_genuine {db : Database} {maxDepth : Nat} {ds : List (Tuple × Derivation)}
    (h : (start db maxDepth).derive.1 = .ok ds) :
    Derivation.Genuine db (ds.map Prod.snd) ∧ ds.map Prod.fst = db.outputs ∧
      ∀ td ∈ ds, td.2.atom = .resource td.1 :=
  (settled_start db maxDepth).deriveAll_genuine h

end HornPlan.Session
