/-
  HornPlan/Query/Encoding.lean
  ============================
  **Query documents as value trees.**

  Maps keep the order of the document.  Absent arguments, and empty descriptors
  and dependencies of a resource, are left out; all other parts are written.

  Specification, sections 6 and E.10: writing a `MasQuery`.
-/
import HornPlan.Query.Basic

namespace HornPlan

def Entry.toValue {α : Type} (spec : α → Value) (e : Entry α) : Value :=
  .map [(e.type, spec e.spec)]

def idValue (id : UInt32) : Value := .ofNat id.toNat

def Reference.toValue (r : Reference) : Value := .map [("id", idValue r.id)]

def InputSpec.toValue (s : InputSpec) : Value :=
  .map (("id", idValue s.id) ::
    match s.args with
    | none => []
    | some args => [("args", .map args)])

def DescriptorSpec.toValue (s : DescriptorSpec) : Value :=
  .map [("params", .map (s.params.map fun p => (p.1, p.2.toValue Reference.toValue)))]

def ResourceSpec.toValue (s : ResourceSpec) : Value :=
  .map (("id", idValue s.id) ::
    ((if s.descriptors.isEmpty then []
      else [("descriptors", .map (s.descriptors.map fun d => (d.1, d.2.toValue)))]) ++
     (if s.dependencies.isEmpty then []
      else [("dependencies", .list (s.dependencies.map (Entry.toValue Reference.toValue)))])))

def Query.toValue (q : Query) : Value :=
  .map
    [("input", .list (q.input.map (Entry.toValue InputSpec.toValue))),
     ("resources", .list (q.resources.map (Entry.toValue ResourceSpec.toValue))),
     ("output", .list (q.output.map (Entry.toValue Reference.toValue)))]

end HornPlan
