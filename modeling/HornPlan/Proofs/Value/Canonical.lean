/-
  HornPlan/Proofs/Value/Canonical.lean
  ====================================
  **Value trees whose maps are in field order.**

  A tree is canonical if all maps in it are sorted (`Fields.Sorted`).  Its depth is the
  number of collections that are open inside one another while it is read.
-/
import HornPlan.Proofs.Value.Fields

namespace HornPlan

namespace Value

/-- Are all maps of a tree in field order? -/
inductive Canonical : Value → Prop
  | null : Canonical .null
  | bool (b : Bool) : Canonical (.bool b)
  | number (n : Number) : Canonical (.number n)
  | text (s : String) : Canonical (.text s)
  | list {items : List Value} (h : ∀ v ∈ items, Canonical v) : Canonical (.list items)
  | map {entries : Fields} (hsorted : entries.Sorted) (h : ∀ e ∈ entries, Canonical e.2) :
    Canonical (.map entries)

mutual

/-- How many collections are open inside one another. -/
def depth : Value → Nat
  | .list items => depthItems items + 1
  | .map entries => depthEntries entries + 1
  | _ => 0

def depthItems : List Value → Nat
  | [] => 0
  | v :: rest => max v.depth (depthItems rest)

def depthEntries : List (String × Value) → Nat
  | [] => 0
  | (_, v) :: rest => max v.depth (depthEntries rest)

end

theorem depth_list_le {items : List Value} {room : Nat} :
    (Value.list items).depth ≤ room + 1 ↔ ∀ v ∈ items, v.depth ≤ room := by
  rw [depth, Nat.add_le_add_iff_right]
  induction items with
  | nil => simp [depthItems]
  | cons v rest ih => simp [depthItems, ih]

theorem depth_map_le {entries : List (String × Value)} {room : Nat} :
    (Value.map entries).depth ≤ room + 1 ↔ ∀ e ∈ entries, e.2.depth ≤ room := by
  rw [depth, Nat.add_le_add_iff_right]
  induction entries with
  | nil => simp [depthEntries]
  | cons e rest ih => simp [depthEntries, ih]

end Value

end HornPlan
