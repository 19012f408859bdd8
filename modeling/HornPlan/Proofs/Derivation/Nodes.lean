/-
  HornPlan/Proofs/Derivation/Nodes.lean
  =====================================
  **The nodes of a proof tree, and its branches.**

  `nodes` lists the nodes of a tree in post-order: children stand before their
  parent, from left to right.  That is the order in which a plan is read off a
  proof.  A `Branch` is a path from the root to a leaf.

  What is said about trees below is said node by node.  `Below m d` means that `m`
  is a node of `d` other than its root; a tree in which no atom occurs below itself
  has branches without repeated atoms (`Branch.nodup_atoms`).
-/
import HornPlan.Derivation

namespace HornPlan.Derivation

/-! ### Induction -/

/-- What passes from the children of a node to the node holds of every tree. -/
@[induction_eliminator, elab_as_elim]
theorem induct {motive : Derivation → Prop}
    (node : ∀ atom clause kind children, (∀ d ∈ children, motive d) →
      motive ⟨atom, clause, kind, children⟩) : ∀ d, motive d
  | ⟨atom, clause, kind, children⟩ =>
    node atom clause kind children fun d hd => by
      have : sizeOf d < sizeOf children := List.sizeOf_lt_of_mem hd
      exact induct node d
termination_by d => sizeOf d

/-! ### Nodes -/

mutual

/-- The nodes of a tree, children before their parent. -/
def nodes : Derivation → List Derivation
  | ⟨atom, clause, kind, children⟩ => nodesAll children ++ [⟨atom, clause, kind, children⟩]

def nodesAll : List Derivation → List Derivation
  | [] => []
  | d :: rest => d.nodes ++ nodesAll rest

end

theorem nodesAll_eq (ds : List Derivation) : nodesAll ds = ds.flatMap nodes := by
  induction ds with
  | nil => rfl
  | cons d rest ih => simp only [nodesAll, ih, List.flatMap_cons]

theorem nodes_eq (d : Derivation) : d.nodes = d.children.flatMap nodes ++ [d] := by
  obtain ⟨atom, clause, kind, children⟩ := d
  simp only [nodes, nodesAll_eq]

/-- `m` is a node of a child of `d`. -/
def Below (m d : Derivation) : Prop := ∃ c ∈ d.children, m ∈ c.nodes

theorem mem_nodes {m d : Derivation} : m ∈ d.nodes ↔ m = d ∨ m.Below d := by
  rw [nodes_eq, List.mem_append, List.mem_flatMap, List.mem_singleton, Or.comm, Below]

theorem self_mem_nodes (d : Derivation) : d ∈ d.nodes := mem_nodes.2 (Or.inl rfl)

theorem below_of_mem_children {m d : Derivation} (h : m ∈ d.children) : m.Below d :=
  ⟨m, h, m.self_mem_nodes⟩

theorem Below.mem_nodes {m d : Derivation} (h : m.Below d) : m ∈ d.nodes :=
  Derivation.mem_nodes.2 (Or.inr h)

theorem mem_nodes_trans {k m d : Derivation} (hk : k ∈ m.nodes) (hm : m ∈ d.nodes) :
    k ∈ d.nodes := by
  induction d with
  | node atom clause kind children ih =>
    rcases mem_nodes.1 hm with rfl | ⟨c, hc, hm⟩
    · exact hk
    · exact Below.mem_nodes ⟨c, hc, ih c hc hm⟩

theorem mem_nodes_of_mem_children {c m d : Derivation} (hc : c ∈ m.children) (hm : m ∈ d.nodes) :
    c ∈ d.nodes :=
  mem_nodes_trans (below_of_mem_children hc).mem_nodes hm

/-! ### Branches -/

/-- A path from the root of a tree to a leaf. -/
inductive Branch : Derivation → List Derivation → Prop
  | leaf {d : Derivation} (h : d.children = []) : Branch d [d]
  | step {d c : Derivation} {path : List Derivation} (hc : c ∈ d.children) (h : Branch c path) :
    Branch d (d :: path)

theorem Branch.mem_nodes {d : Derivation} {path : List Derivation} (h : Branch d path) :
    ∀ m ∈ path, m ∈ d.nodes := by
  induction h with
  | @leaf d _ =>
    intro m hm
    rw [List.mem_singleton.1 hm]
    exact d.self_mem_nodes
  | @step d c path hc _ ih =>
    intro m hm
    rcases List.mem_cons.1 hm with rfl | hm
    · exact m.self_mem_nodes
    · exact Below.mem_nodes ⟨c, hc, ih m hm⟩

/-- A tree in which no atom occurs below itself has no repeated atom on a branch. -/
theorem Branch.nodup_atoms {d : Derivation} {path : List Derivation} (h : Branch d path)
    (hd : ∀ n ∈ d.nodes, ∀ m : Derivation, m.Below n → m.atom ≠ n.atom) :
    (path.map atom).Nodup := by
  induction h with
  | leaf _ => simp
  | @step d c path hc hpath ih =>
    rw [List.map_cons, List.nodup_cons]
    refine ⟨?_, ih fun n hn => hd n (Below.mem_nodes ⟨c, hc, hn⟩)⟩
    intro hmem
    obtain ⟨m, hm, heq⟩ := List.mem_map.1 hmem
    exact hd d d.self_mem_nodes m ⟨c, hc, hpath.mem_nodes m hm⟩ heq

end HornPlan.Derivation
