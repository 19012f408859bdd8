/-
  HornPlan/Query/Basic.lean
  =========================
  **Query documents.**

  A query says which resources are at hand (`input`), what is to be known about
  resources that are to be made (`resources`), and which resources are wanted
  (`output`).  Every section is an ordered list of entries `alias: spec`; the
  order of entries, of descriptors and of their params is kept, since clauses and
  plan steps come out in that order.

  An id is written as a number of 32 bits.  Whether it may be used, i.e. is not
  zero, and whether an alias means anything is for the compiler to say.

  Specification, sections 3 and 6: the `MasQuery` document and its entries.
-/
import HornPlan.Value

namespace HornPlan

/-- A spec under the alias of a resource type. -/
structure Entry (α : Type) where
  type : String
  spec : α
deriving Repr, Inhabited

/-- Refers to an instance by its id. -/
structure Reference where
  id : UInt32
deriving DecidableEq, Repr, Inhabited

/-- A resource at hand: its id and its arguments, which may be absent. -/
structure InputSpec where
  id : UInt32
  args : Option Fields
deriving Repr, Inhabited

/-- The resources that a descriptor works from, by role. -/
structure DescriptorSpec where
  params : List (String × Entry Reference)
deriving Repr, Inhabited

/-- What is to be known about a resource: descriptors by name, and other resources
    that have to exist. -/
structure ResourceSpec where
  id : UInt32
  descriptors : List (String × DescriptorSpec)
  dependencies : List (Entry Reference)
deriving Repr, Inhabited

/-- A query document. -/
structure Query where
  input : List (Entry InputSpec)
  resources : List (Entry ResourceSpec)
  output : List (Entry Reference)
deriving Repr, Inhabited

/-! ### Building documents -/

namespace ResourceSpec

def ofId (id : UInt32) : ResourceSpec := ⟨id, [], []⟩

/-- Adds a descriptor with params given as (role, alias, id). -/
def describe (spec : ResourceSpec) (descriptor : String)
    (params : List (String × String × UInt32)) : ResourceSpec :=
  let params := params.map fun (role, type, id) => (role, Entry.mk type (Reference.mk id))
  { spec with descriptors := spec.descriptors ++ [(descriptor, ⟨params⟩)] }

def dependsOn (spec : ResourceSpec) (type : String) (id : UInt32) : ResourceSpec :=
  { spec with dependencies := spec.dependencies ++ [⟨type, ⟨id⟩⟩] }

end ResourceSpec

namespace Query

def empty : Query := ⟨[], [], []⟩

def withInput (q : Query) (type : String) (id : UInt32) (args : Fields) : Query :=
  { q with input := q.input ++ [⟨type, ⟨id, some args⟩⟩] }

def withResource (q : Query) (type : String) (spec : ResourceSpec) : Query :=
  { q with resources := q.resources ++ [⟨type, spec⟩] }

def withOutput (q : Query) (type : String) (id : UInt32) : Query :=
  { q with output := q.output ++ [⟨type, ⟨id⟩⟩] }

end Query

end HornPlan
