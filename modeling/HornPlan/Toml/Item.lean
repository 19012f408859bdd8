/-
  HornPlan/Toml/Item.lean
  =======================
  **TOML trees, and how statements extend them.**

  A document is a table that grows statement by statement.  A statement may extend
  some of the tables that are there and must leave the others alone; which, is
  decided by how a table came to be (`Origin`).
-/

namespace HornPlan.Toml

/-- How a table came to be. -/
inductive Origin where
  /-- It has a header of its own. -/
  | header
  /-- It is on the path of a longer header. -/
  | implied
  /-- It is on the path of a dotted key. -/
  | dotted
  /-- It is written in braces, and thereby complete. -/
  | inline
deriving DecidableEq, Repr

/-- A value, a table, or the tables under one repeated header. -/
inductive Item where
  | text (s : String)
  | integer (n : Int)
  /-- A number with a fraction, or an infinity, or not a number, as written. -/
  | real (literal : String)
  | truth (b : Bool)
  /-- A date, a time, or both, as written. -/
  | moment (literal : String)
  | array (items : List Item)
  | table (origin : Origin) (entries : List (String × Item))
  | rows (rows : List (List (String × Item)))
deriving Repr, Inhabited

/-- The entries of a table, in the order in which they were made. -/
abbrev Entries := List (String × Item)

namespace Entries

/-- Puts another item under a key that is there. -/
def replace (key : String) (item : Item) : Entries → Entries
  | [] => []
  | (k, v) :: rest => if k = key then (k, item) :: rest else (k, v) :: replace key item rest

def editLast (f : Entries → Option Entries) : List Entries → Option (List Entries)
  | [] => none
  | [row] => (f row).map ([·])
  | row :: rest => (editLast f rest).map (row :: ·)

/-- May a path lead through a table?  A header may lead through every table that is
    not complete, a dotted key only through tables without a header. -/
def mayEnter (byHeader : Bool) : Origin → Bool
  | .header => byHeader
  | .implied | .dotted => true
  | .inline => false

/-- Goes down a path, making the tables that are missing, and edits the table at its
    end.  A path through repeated tables leads into the last one. -/
def edit (byHeader : Bool) (f : Origin → Entries → Option Entries) :
    (path : List String) → Origin → Entries → Option Entries
  | [], origin, entries => f origin entries
  | key :: path, _, entries =>
    match entries.lookup key with
    | none => do
      let origin := if byHeader then Origin.implied else Origin.dotted
      return entries ++ [(key, .table origin (← edit byHeader f path origin []))]
    | some (.table origin inner) =>
      if mayEnter byHeader origin then do
        return entries.replace key (.table origin (← edit byHeader f path origin inner))
      else none
    | some (.rows rows) => do
      return entries.replace key (.rows (← editLast (edit byHeader f path .header) rows))
    | some _ => none

/-- Splits a path into the part before its last key, and that key. -/
def splitLast? : List String → Option (List String × String)
  | [] => none
  | [key] => some ([], key)
  | key :: rest => (splitLast? rest).map fun (path, last) => (key :: path, last)

/-- The statement `path = item`.  A plain key belongs into the table that the
    statement stands in, a dotted one into a table that only dotted keys made. -/
def assign (path : List String) (item : Item) (origin : Origin) (entries : Entries) :
    Option Entries := do
  let (path, key) ← splitLast? path
  edit false (fun origin entries =>
    if (origin = .dotted ↔ path.isEmpty) ∨ (entries.lookup key).isSome then none
    else some (entries ++ [(key, item)])) path origin entries

/-- The header of a table.  One that only longer headers have made so far gets the
    header; otherwise there must not be one. -/
def openTable (path : List String) (entries : Entries) : Option Entries := do
  let (path, key) ← splitLast? path
  edit true (fun _ entries =>
    match entries.lookup key with
    | none => some (entries ++ [(key, .table .header [])])
    | some (.table .implied inner) => some (entries.replace key (.table .header inner))
    | some _ => none) path .header entries

/-- The header of one more of several tables. -/
def openRow (path : List String) (entries : Entries) : Option Entries := do
  let (path, key) ← splitLast? path
  edit true (fun _ entries =>
    match entries.lookup key with
    | none => some (entries ++ [(key, .rows [[]])])
    | some (.rows rows) => some (entries.replace key (.rows (rows ++ [[]])))
    | some _ => none) path .header entries

end Entries

end HornPlan.Toml
