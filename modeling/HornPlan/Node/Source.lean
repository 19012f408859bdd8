/-
  HornPlan/Node/Source.lean
  =========================
  **A text that has been read, and the conventions of its format.**

  The two document formats differ in a few conventions that a typed reading has
  to know: how "null" is called in a message, how a number with a fraction is
  written there, whether a record may be written as the list of its parts, and
  how deep a text may nest.  They are collected in a `Dialect`.
-/
import HornPlan.Decimal.Shortest
import HornPlan.Node

namespace HornPlan

/-- The conventions of a document format. -/
structure Dialect where
  /-- How a null is called in a message. -/
  nullName : String
  /-- How a number with a fraction is written in a message. -/
  numerals : NumeralStyle
  /-- May a record be written as the list of its parts? -/
  positional : Bool
  /-- How many collections may be open inside one another. -/
  depth : Nat
deriving Repr

/-- A text that has been read: its root, the nodes that aliases refer to, how many
    aliases may be followed, and whether the root is all that it holds. -/
structure Source where
  dialect : Dialect
  root : Node
  anchors : List (Nat × Node)
  jumps : Nat
  complete : Bool
deriving Repr

end HornPlan
