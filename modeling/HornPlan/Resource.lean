/-
  HornPlan/Resource.lean
  ======================
  **Resources: their types, their instances, and their values.**

  A resource type is known by an alias.  An instance of it has a positive id; the
  wildcard stands for "any instance", and is written with the id 0.  A `Tuple` is
  an alias with an id or the wildcard.  A `Resource` is a value of some type: an
  alias with fields that planning never looks into.

  Specification, sections 3, E.1 and E.2: `ResourceType`, `InstanceId`, `ResourceTuple`
  and `Resource`, with `generalize`, `raw_id`, `get_str` and `annotate`.
-/
import HornPlan.Error
import HornPlan.Value

namespace HornPlan

/-- A named kind of data.  A value of it that comes from a query document has to
    carry the fields. -/
structure ResourceType where
  name : String
  fields : List String
deriving DecidableEq, Repr, Inhabited

/-! ### Instances -/

/-- The id of an instance. -/
structure InstanceId where
  value : UInt32
  value_ne_zero : value ≠ 0
deriving DecidableEq, Repr

namespace InstanceId

/-- The id with a number, unless that is zero. -/
def ofNumber? (n : UInt32) : Option InstanceId :=
  if h : n ≠ 0 then some ⟨n, h⟩ else none

/-- The id with a number that was written in some context. -/
def parse (n : UInt32) (context : String) : Except Error InstanceId :=
  match ofNumber? n with
  | some id => .ok id
  | none => .error (.reservedInstanceId context)

end InstanceId

/-- An alias with the id of an instance, or with the wildcard. -/
structure Tuple where
  type : String
  id : Option InstanceId
deriving DecidableEq, Repr

namespace Tuple

/-- An instance. -/
def concrete (type : String) (id : InstanceId) : Tuple := ⟨type, some id⟩

/-- Any instance of a type. -/
def wildcard (type : String) : Tuple := ⟨type, none⟩

instance : Inhabited Tuple := ⟨wildcard ""⟩

def isWildcard (t : Tuple) : Bool := t.id.isNone

/-- The wildcard of the same type. -/
def generalize (t : Tuple) : Tuple := wildcard t.type

/-- The id as it is written: 0 for the wildcard. -/
def rawId (t : Tuple) : Nat :=
  match t.id with
  | some id => id.value.toNat
  | none => 0

/-- A tuple as it is written: alias, underscore, id. -/
def text (t : Tuple) : String := t.type ++ "_" ++ toString t.rawId

/-- Tuples are ordered by alias, then by id, the wildcard first. -/
def order (s t : Tuple) : Ordering := (compare s.type t.type).then (compare s.rawId t.rawId)

end Tuple

/-! ### Values -/

/-- A value of a resource type. -/
structure Resource where
  type : String
  fields : Fields
deriving Repr, Inhabited

namespace Resource

def ofType (type : String) : Resource := ⟨type, []⟩

def set (r : Resource) (key : String) (value : Value) : Resource :=
  { r with fields := r.fields.insert key value }

def get? (r : Resource) (key : String) : Option Value := r.fields.get? key

/-- The text of a field that holds one. -/
def getText? (r : Resource) (key : String) : Option String := (r.get? key).bind Value.asText?

/-- Lays the fields of another value over those of this one. -/
def annotate (r other : Resource) : Resource := { r with fields := r.fields.overlay other.fields }

def toValue (r : Resource) : Value := .map [("ty", .text r.type), ("fields", .map r.fields)]

end Resource

end HornPlan
