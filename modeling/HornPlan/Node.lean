/-
  HornPlan/Node.lean
  ==================
  **Trees as they are read from a text.**

  A reader of JSON or YAML does not know what the text is for, so it hands on a
  `Node`: the tree that the text spells, with everything that a later, typed
  reading may ask for.

  * Keys are nodes, since YAML allows any node as a key.
  * A scalar keeps its text beside what it denotes: a key `1` is the text "1",
    an argument `1` is a number.
  * An alias refers to an anchored node by number; the table of anchored nodes
    belongs to the whole text, so a node may refer to itself.
  * A text that is broken at some point still has a readable beginning.  The
    node `fault` stands where the breakage was met, so that a typed reading
    reports whichever comes first, a misfit or the breakage.

  Specification, section E.10: a document before it is a `MasQuery`.
-/
import HornPlan.Value

namespace HornPlan

/-- What a scalar denotes to a reader without expectations. -/
inductive Reading where
  | null
  | bool (b : Bool)
  | int (n : Int)
  | real (x : Binary)
  /-- An infinity (with its sign) or, without a sign, not a number. -/
  | nonFinite (negative : Option Bool)
  | text (s : String)
  /-- An integer beyond 64 bits. -/
  | wide (n : Int)
  /-- A text that does not fit the type it is marked with. -/
  | misfit (s : String) (expected : String)
  /-- Well-formed enough to be passed over, but without a meaning. -/
  | unreadable
deriving Repr, Inhabited

/-- A scalar: what it denotes, and what it is to a reader that asks for a text
    or for a natural number. -/
structure Scalar where
  reading : Reading
  /-- The text it gives where a text is asked for. -/
  asText : Option String
  /-- The integer it gives where a natural number is asked for. -/
  asInteger : Option Int
  /-- Does it carry a tag of the document's own? -/
  tagged : Bool
  /-- Nothing at all is written, which also stands for an empty collection. -/
  blank : Bool
  /-- Does it stand for the absence of an optional part? -/
  absent : Bool
deriving Repr, Inhabited

/-- A tree read from a text. -/
inductive Node where
  | scalar (s : Scalar)
  | sequence (tagged : Bool) (items : List Node)
  | mapping (tagged : Bool) (entries : List (Node × Node))
  | link (target : Nat)
  | fault
deriving Repr, Inhabited

namespace Scalar

/-- The scalar that a plain value denotes, read without a tag. -/
def ofReading (r : Reading) : Scalar :=
  { reading := r
    asText := match r with | .text s => some s | _ => none
    asInteger := match r with | .int n => some n | _ => none
    tagged := false
    blank := false
    absent := match r with | .null => true | _ => false }

end Scalar

namespace Node

mutual

/-- Can the node be passed over, i.e. is it free of breakage? -/
def sound : Node → Bool
  | .scalar _ => true
  | .sequence _ items => soundItems items
  | .mapping _ entries => soundEntries entries
  | .link _ => true
  | .fault => false

def soundItems : List Node → Bool
  | [] => true
  | n :: rest => n.sound && soundItems rest

def soundEntries : List (Node × Node) → Bool
  | [] => true
  | (k, v) :: rest => k.sound && v.sound && soundEntries rest

end

def ofText (s : String) : Node := .scalar (Scalar.ofReading (.text s))

mutual

/-- The node that a value tree spells, entry by entry. -/
def ofValue : Value → Node
  | .null => .scalar (Scalar.ofReading .null)
  | .bool b => .scalar (Scalar.ofReading (.bool b))
  | .number (.int n) => .scalar (Scalar.ofReading (.int n))
  | .number (.real x) => .scalar (Scalar.ofReading (.real x))
  | .text s => ofText s
  | .list items => .sequence false (ofItems items)
  | .map entries => .mapping false (ofEntries entries)

def ofItems : List Value → List Node
  | [] => []
  | v :: rest => ofValue v :: ofItems rest

def ofEntries : List (String × Value) → List (Node × Node)
  | [] => []
  | (k, v) :: rest => (ofText k, ofValue v) :: ofEntries rest

end

end Node

end HornPlan
