/-
  HornPlan/Atom.lean
  ==================
  **The statements that clauses are made of.**

  An atom says that a resource is there, that a property of it is known, or that
  all it depends on is there.

  Specification, sections 3 and E.1: `Atom`, with its text and its `subject`.
-/
import HornPlan.Resource

namespace HornPlan

inductive Atom where
  /-- `topic_1` -/
  | resource (t : Tuple)
  /-- `ingredients(recipe_2)` -/
  | property (predicate : String) (subject : Tuple)
  /-- `all_dependencies(recipe_2)` -/
  | allDependencies (t : Tuple)
deriving DecidableEq, Repr

namespace Atom

instance : Inhabited Atom := ⟨.resource default⟩

def subject : Atom → Tuple
  | resource t | allDependencies t => t
  | property _ t => t

def asResource? : Atom → Option Tuple
  | resource t => some t
  | _ => none

def text : Atom → String
  | resource t => t.text
  | property predicate t => predicate ++ "(" ++ t.text ++ ")"
  | allDependencies t => "all_dependencies(" ++ t.text ++ ")"

/-- Resources come first, then properties (by predicate), then aggregates. -/
def order : Atom → Atom → Ordering
  | resource s, resource t => s.order t
  | resource _, _ => .lt
  | property _ _, resource _ => .gt
  | property p s, property q t => (compare p q).then (s.order t)
  | property _ _, allDependencies _ => .lt
  | allDependencies s, allDependencies t => s.order t
  | allDependencies _, _ => .gt

def toValue : Atom → Value
  | resource t => .map (("kind", .text "resource") :: tupleEntries t)
  | property p t =>
    .map [("kind", .text "property"), ("predicate", .text p), ("subject", .map (tupleEntries t))]
  | allDependencies t => .map (("kind", .text "all_dependencies") :: tupleEntries t)
where
  /-- The entries of a tuple; the wildcard has no id. -/
  tupleEntries (t : Tuple) : List (String × Value) :=
    ("ty", .text t.type) :: (match t.id with
      | some id => [("id", .ofNat id.value.toNat)]
      | none => [])

end Atom

end HornPlan
