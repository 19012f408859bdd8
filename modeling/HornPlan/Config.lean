/-
  HornPlan/Config.lean
  ====================
  **The configuration.**

  A configuration is read from a TOML text with three sections.  A section or a
  setting that is left out has its default, and unknown ones are passed over; but
  a text that is broken, or in which some setting does not fit, counts as a whole
  as if it were not there.

  Specification, section D: `MasplanConfig`.
-/
import HornPlan.Planner
import HornPlan.Toml.Reader
import HornPlan.Toml.Text
import HornPlan.View

namespace HornPlan

structure Config where
  /-- How deep goals may nest in a proof. -/
  maxDepth : Nat
  /-- What is logged. -/
  filter : String
  /-- How results are shown. -/
  format : Format
deriving DecidableEq, Repr, Inhabited

namespace Config

open Toml (Item Entries)

def standard : Config := ⟨Planner.defaultDepth, "masplan=info", .text⟩

/-! ### Settings -/

def depthOf? : Item → Option Nat
  | .integer n => if 0 ≤ n then some n.toNat else none
  | _ => none

def filterOf? : Item → Option String
  | .text s => some s
  | _ => none

/-- Is this the empty content of a named choice? -/
def isVoid : Item → Bool
  | .table _ [] | .array [] | .rows [] => true
  | _ => false

/-- A format by its name, or as a table whose only entry has that name. -/
def formatOf? : Item → Option Format
  | .text s => Format.ofName? s
  | .table _ [(name, content)] => if isVoid content then Format.ofName? name else none
  | _ => none

/-! ### Sections -/

/-- The only setting of a section.  A section is a table, or a list that begins with
    the setting.  A date or a time holds no setting at all. -/
def setting? {α : Type} (name : String) (read : Item → Option α) (default_ : α) :
    Item → Option α
  | .table _ entries =>
    match entries.lookup name with
    | some item => read item
    | none => some default_
  | .array (item :: _) => read item
  | .rows (row :: _) => read (.table .header row)
  | .array [] | .rows [] | .moment _ => some default_
  | _ => none

/-- The setting of a section that may be left out. -/
def sectionOf? {α : Type} (name setting : String) (read : Item → Option α) (default_ : α)
    (entries : Entries) : Option α :=
  match entries.lookup name with
  | some item => setting? setting read default_ item
  | none => some default_

def ofEntries? (entries : Entries) : Option Config := do
  return {
    maxDepth := ← sectionOf? "planner" "max_depth" depthOf? standard.maxDepth entries
    filter := ← sectionOf? "log" "filter" filterOf? standard.filter entries
    format := ← sectionOf? "output" "format" formatOf? standard.format entries }

/-- The configuration of a text, or the standard one. -/
def ofText (text : String) : Config := ((Toml.read text).bind ofEntries?).getD standard

/-! ### Texts -/

def toml (c : Config) : String :=
  "[planner]\nmax_depth = " ++ toString c.maxDepth ++ "\n\n[log]\nfilter = " ++ Toml.quoted c.filter
    ++ "\n\n[output]\nformat = " ++ Toml.quoted c.format.name ++ "\n"

end Config

end HornPlan
