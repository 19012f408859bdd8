/-
  HornPlan/Value.lean
  ===================
  **Value trees.**

  A `Value` is what a field of a resource holds and what a document, a plan or a
  report is turned into before it is written: null, a truth value, a number, a
  text, a list, or a map from texts.  Lists of pairs stand for maps.  The maps
  *inside* resources are kept sorted by key (`Fields`), because that is the order
  in which every output format shows them; a tree that is only written, such as
  that of a query document, keeps the order in which it was built.

  Specification, section E.2: the fields of a `Resource`.
-/
import HornPlan.Decimal.Binary

namespace HornPlan

/-- A number: an integer of 64 bits (of either sign), or one with a fraction. -/
inductive Number where
  | int (n : Int)
  | real (x : Binary)
deriving DecidableEq, Repr, Inhabited

/-- A tree of null, truth values, numbers, texts, lists and maps. -/
inductive Value where
  | null
  | bool (b : Bool)
  | number (n : Number)
  | text (s : String)
  | list (items : List Value)
  | map (entries : List (String × Value))
deriving Repr, Inhabited

namespace Value

def ofNat (n : Nat) : Value := .number (.int n)

def texts (ss : List String) : Value := .list (ss.map .text)

def asText? : Value → Option String
  | .text s => some s
  | _ => none

end Value

/-! ### Field maps -/

/-- The fields of a resource, sorted by key and without repeated keys. -/
abbrev Fields := List (String × Value)

namespace Fields

/-- Sets a field; an earlier value under the same key is replaced. -/
def insert (key : String) (value : Value) : Fields → Fields
  | [] => [(key, value)]
  | (k, v) :: rest =>
    if key = k then (key, value) :: rest
    else if key < k then (key, value) :: (k, v) :: rest
    else (k, v) :: insert key value rest

def get? (key : String) : Fields → Option Value
  | [] => none
  | (k, v) :: rest => if key = k then some v else get? key rest

def contains (key : String) (fields : Fields) : Bool := (fields.get? key).isSome

/-- Every field of `upper`, and those of `lower` that `upper` does not set. -/
def overlay (lower upper : Fields) : Fields :=
  upper.foldr (fun entry fields => insert entry.1 entry.2 fields) lower

/-- The field map of a list of pairs; of two pairs with one key the later wins. -/
def ofList (entries : List (String × Value)) : Fields :=
  entries.foldl (fun fields entry => insert entry.1 entry.2 fields) []

end Fields

end HornPlan
