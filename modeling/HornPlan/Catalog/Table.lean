/-
  HornPlan/Catalog/Table.lean
  ===========================
  **Items that are found by name.**

  A table lists items in the order in which they were added.  Beside the list it keeps an
  index, the position of each item under its name.  A name is looked up in the index, and
  the item is then taken from the list.

  Specification, section 4.2: what the tasks and the descriptors of a `Catalog` are each
  kept in.
-/
namespace HornPlan

/-- Items with names of their own, in the order in which they were added. -/
structure Table {α : Type} (nameOf : α → String) where
  items : List α
  index : List (String × Nat)
deriving Inhabited

namespace Table

variable {α : Type} {nameOf : α → String}

def empty : Table nameOf := ⟨[], []⟩

def position? (tb : Table nameOf) (name : String) : Option Nat := tb.index.lookup name

def get? (tb : Table nameOf) (name : String) : Option α :=
  (tb.position? name).bind fun i => tb.items[i]?

/-- Adds an item unless its name is taken.  Tells whether it was added, and leaves the
    table behind. -/
def add (tb : Table nameOf) (x : α) : Bool × Table nameOf :=
  if (tb.position? (nameOf x)).isSome then (false, tb)
  else (true, ⟨tb.items ++ [x], (nameOf x, tb.items.length) :: tb.index⟩)

/-- The table of some items, which are added one after the other. -/
def ofList (xs : List α) : Table nameOf := xs.foldl (fun tb x => (tb.add x).2) empty

end Table

end HornPlan
