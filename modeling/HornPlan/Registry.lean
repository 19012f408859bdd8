/-
  HornPlan/Registry.lean
  ======================
  **The registry of resource types.**

  Every type is registered once and under one alias, so an alias with an id names
  one instance of one type.  The types are kept by alias, and the aliases beside them
  in the order of registration.

  Specification, section 4.1: `ResourceRegistry`, with `register`, `resolve`,
  `contains`, `atom_for`, `instantiate`, `entries` and `len`.
-/
import HornPlan.Resource

namespace HornPlan

/-- Types that are found by alias, and the order in which they were registered. -/
structure Registry where
  types : List (String × ResourceType)
  /-- For listings. -/
  order : List String
deriving DecidableEq, Repr, Inhabited

namespace Registry

def empty : Registry := ⟨[], []⟩

def type? (r : Registry) (key : String) : Option ResourceType := r.types.lookup key

def contains (r : Registry) (key : String) : Bool := (r.type? key).isSome

/-- Adds a type.  Neither the alias nor the name of the type may be in use. -/
def add (r : Registry) (key : String) (type : ResourceType) : Registration Registry :=
  if r.contains key then (.error (.duplicateAlias key), r)
  else
    match r.types.find? fun e => e.2.name = type.name with
    | some (other, _) => (.error (.duplicateResourceType type.name other), r)
    | none => (.ok (), { types := (key, type) :: r.types, order := r.order ++ [key] })

/-- Registers a type, and gives up when that is refused. -/
def register (r : Registry) (key : String) (type : ResourceType) : Except Error Registry :=
  (r.add key type).result

def resolve (r : Registry) (key : String) : Except Error ResourceType :=
  match r.type? key with
  | some type => .ok type
  | none => .error (.unknownAlias key)

/-- The text of a tuple of a registered type. -/
def atomFor (_ : Registry) (t : Tuple) : String := t.text

/-- A value of a type from arguments, which have to carry the fields of the type. -/
def instantiate (r : Registry) (key : String) (args : Fields) : Except Error Resource := do
  let type ← r.resolve key
  match type.fields.find? fun f => !args.contains f with
  | some field =>
    .error (.invalidArguments key ("missing field '" ++ field ++ "' required by " ++ type.name))
  | none => .ok ⟨key, args⟩

/-- The types with their aliases, in the order of registration. -/
def entries (r : Registry) : List (String × ResourceType) :=
  r.order.filterMap fun key => (r.type? key).map fun type => (key, type)

def size (r : Registry) : Nat := r.types.length

end Registry

end HornPlan
