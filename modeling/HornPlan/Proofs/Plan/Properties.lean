/-
  HornPlan/Proofs/Plan/Properties.lean
  ====================================
  **The properties of an instance come together and in their order.**

  A descriptor step annotates its output in place, so the steps that write one
  instance have to come in the order in which its aggregate asks for the properties,
  and no other step may write it.  That they do is a matter of where properties occur
  in proofs: below the aggregate of their instance, as its children, and nowhere else.
  So whenever a walk meets properties of an instance it meets all of them, in order
  (`repeats_nodes`).  With repetitions dropped, there is one such run
  (`firsts_filter_describes`).
-/
import HornPlan.Proofs.Plan.Soundness

namespace HornPlan

open Query

/-! ### Runs of one list -/

/-- `m` consists of copies of `l`. -/
def Repeats {α : Type} (l m : List α) : Prop := ∃ n, m = (List.replicate n l).flatten

theorem Repeats.nil {α : Type} (l : List α) : Repeats l [] := ⟨0, rfl⟩

theorem Repeats.self {α : Type} (l : List α) : Repeats l l := ⟨1, (List.append_nil l).symm⟩

theorem Repeats.append {α : Type} {l m m' : List α} (h : Repeats l m) (h' : Repeats l m') :
    Repeats l (m ++ m') := by
  obtain ⟨n, rfl⟩ := h
  obtain ⟨n', rfl⟩ := h'
  exact ⟨n + n', by rw [← List.replicate_append_replicate, List.flatten_append]⟩

theorem Repeats.flatMap {α β : Type} {l : List β} {f : α → List β} {as : List α}
    (h : ∀ a ∈ as, Repeats l (f a)) : Repeats l (as.flatMap f) := by
  induction as with
  | nil => exact Repeats.nil l
  | cons a rest ih =>
    rw [List.flatMap_cons]
    exact (h a List.mem_cons_self).append (ih fun b hb => h b (List.mem_cons_of_mem _ hb))

namespace Derivation

variable {r : Registry} {c : Catalog} {q : Query} {db : Database}

/-- Does a node prove a property of the instance? -/
def describes (t : Tuple) (n : Derivation) : Bool :=
  match n.atom with
  | .property _ u => u = t
  | _ => false

theorem describes_iff {t : Tuple} {n : Derivation} :
    n.describes t = true ↔ ∃ p, n.atom = .property p t := by
  unfold describes
  split
  · rename_i p u hatom
    rw [hatom, decide_eq_true_eq]
    constructor
    · rintro rfl
      exact ⟨p, rfl⟩
    · rintro ⟨p', h⟩
      cases h
      rfl
  · rename_i hatom
    exact ⟨fun h => (nomatch h), fun ⟨p, h⟩ => absurd h (hatom p t)⟩

theorem describes_congr {t : Tuple} {d e : Derivation} (h : d.atom = e.atom) :
    d.describes t = e.describes t := by
  unfold describes
  rw [h]

theorem not_describes_of_resource {t u : Tuple} {n : Derivation} (h : n.atom = .resource u) :
    ¬ n.describes t = true := by
  intro hd
  obtain ⟨p, hp⟩ := describes_iff.1 hd
  cases h.symm.trans hp

section Genuine

variable {ds : List Derivation} (hcomp : Compiled r c q db) (hds : Genuine db ds)
include hcomp hds

/-- What asks for a property proves the aggregate of the instance. -/
theorem aggregate_of_describes {n m : Derivation} (hn : n ∈ nodesAll ds) (hm : m ∈ n.children)
    {t : Tuple} (hd : m.describes t = true) : n.atom = .allDependencies t := by
  obtain ⟨p, hp⟩ := describes_iff.1 hd
  exact (hcomp.form_of_mem hds hn).aggregate_of_property hm hp

variable {aggregate : Derivation} {t : Tuple} (hmem : aggregate ∈ nodesAll ds)
  (ha : aggregate.atom = .allDependencies t)
include hmem ha

/-- No property of the instance is below a child of its aggregate. -/
theorem filter_nodes_child {m : Derivation} (hm : m ∈ aggregate.children) :
    m.nodes.filter (describes t) = [m].filter (describes t) := by
  have hbelow : (m.children.flatMap nodes).filter (describes t) = [] := by
    rw [List.filter_eq_nil_iff]
    intro k hk hd
    obtain ⟨c, hc, hk⟩ := List.mem_flatMap.1 hk
    obtain ⟨n, hn, hchild⟩ := Below.exists_parent ⟨c, hc, hk⟩
    -- what asks for it is the aggregate again, which is not below itself
    have hnode := mem_nodesAll_of_mem_nodes hmem
      (mem_nodes_trans hn (below_of_mem_children hm).mem_nodes)
    refine hds.acyclic aggregate hmem n ⟨m, hm, hn⟩ ?_
    rw [ha, aggregate_of_describes hcomp hds hnode hchild hd]
  rw [nodes_eq, List.filter_append, hbelow, List.nil_append]

/-- In a proof the properties of an instance come in runs of all that its aggregate
    asks for. -/
theorem repeats_nodes {d : Derivation} (hd : d ∈ nodesAll ds)
    (hdescribes : ¬ d.describes t = true) :
    Repeats (aggregate.children.filter (describes t)) (d.nodes.filter (describes t)) := by
  induction d with
  | node atom clause kind children ih =>
    rw [nodes_eq, List.filter_append, List.filter_cons_of_neg hdescribes, List.filter_nil,
      List.append_nil, List.filter_flatMap]
    by_cases heq : atom = .allDependencies t
    · -- the node is the aggregate
      have hself : (⟨atom, clause, kind, children⟩ : Derivation) = aggregate :=
        hds.unique _ hd _ hmem (heq.trans ha.symm)
      have hchildren : ∀ cs : List Derivation, (∀ m ∈ cs, m ∈ aggregate.children) →
          cs.flatMap (fun m => m.nodes.filter (describes t)) = cs.filter (describes t) := by
        intro cs
        induction cs with
        | nil => exact fun _ => rfl
        | cons m rest ihcs =>
          intro hcs
          rw [List.flatMap_cons, filter_nodes_child hcomp hds hmem ha (hcs m List.mem_cons_self),
            ihcs fun k hk => hcs k (List.mem_cons_of_mem _ hk), ← List.filter_append]
          rfl
      have hsame : children = aggregate.children := congrArg Derivation.children hself
      subst hsame
      rw [hchildren aggregate.children fun m hm => hm]
      exact Repeats.self _
    · apply Repeats.flatMap
      intro m hm
      have hnode := mem_nodesAll_of_mem_nodes hd (below_of_mem_children hm).mem_nodes
      refine ih m hm hnode fun hdm => heq ?_
      exact aggregate_of_describes hcomp hds hd hm hdm

/-- **With repetitions dropped, the properties of an instance come in the order in
    which its aggregate asks for them.** -/
theorem firsts_filter_describes (hroots : ∀ d ∈ ds, ∃ u, d.atom = .resource u) :
    (firsts ds).filter (describes t) = distinct [] (aggregate.children.filter (describes t)) := by
  have hrepeats : Repeats (aggregate.children.filter (describes t))
      ((nodesAll ds).filter (describes t)) := by
    rw [nodesAll_eq, List.filter_flatMap]
    apply Repeats.flatMap
    intro d hd
    obtain ⟨u, hu⟩ := hroots d hd
    exact repeats_nodes hcomp hds hmem ha (mem_nodesAll.2 ⟨d, hd, d.self_mem_nodes⟩)
      (not_describes_of_resource hu)
  rw [firsts, filter_distinct (fun _ _ => describes_congr) fun _ _ _ => Iff.rfl]
  obtain ⟨n, hn⟩ := hrepeats
  rw [hn]
  cases n with
  | succ n =>
    -- further copies of a list add nothing to it
    rw [List.replicate_succ, List.flatten_cons]
    apply distinct_append_of_subset
    intro d hd
    obtain ⟨l, hl, hd⟩ := List.mem_flatten.1 hd
    rw [(List.mem_replicate.1 hl).2] at hd
    exact List.mem_map_of_mem hd
  | zero =>
    have hnone : aggregate.children.filter (describes t) = [] := by
      rw [List.filter_eq_nil_iff]
      intro m hm hd
      have hnode := mem_nodesAll_of_mem_nodes hmem (below_of_mem_children hm).mem_nodes
      have hin : m ∈ (nodesAll ds).filter (describes t) := List.mem_filter.2 ⟨hnode, hd⟩
      rw [hn] at hin
      cases hin
    rw [hnone]
    rfl

end Genuine

end Derivation

end HornPlan
