/-
  HornPlan/Query/Decoding.lean
  ============================
  **Query documents read from nodes.**

  An entry is a map with exactly one key.  The descriptors of a resource and the
  params of a descriptor are maps without repeated keys whose order counts.
  Sections, descriptors, params, dependencies and arguments may be left out; an
  id may not.

  Specification, sections 6 and E.10: reading a `MasQuery`.
-/
import HornPlan.Query.Basic
import HornPlan.Node.Decoder

namespace HornPlan

namespace Entry

/-- A map with one key. -/
def expectation : String := "a single-key map \x7balias: \x7b...\x7d\x7d"

/-- Reads an entry whose spec is read by `spec`. -/
def decode {α : Type} (src : Source) (spec : Nat → Node → Decoder α) (room : Nat) (n : Node) :
    Decoder (Entry α) := do
  match ← Decoder.entries src expectation room n with
  | (_, []) => Decoder.refuse .emptyEntry
  | (room, (k, v) :: rest) => do
    let type ← Decoder.text src "a string" k
    let spec ← spec room v
    match rest with
    | [] => return ⟨type, spec⟩
    | (k, _) :: _ => do
      let key ← Decoder.text src "a string" k
      Decoder.refuse (.secondKey type key)

end Entry

/-- Reads the entries of a map whose order counts; `seen` holds the keys so far. -/
def distinctPairs {α : Type} (src : Source) (value : Node → Decoder α) :
    List (Node × Node) → (seen : List String) → Decoder (List (String × α))
  | [], _ => pure []
  | (k, v) :: rest, seen => do
    let key ← Decoder.text src "a string" k
    let v ← value v
    if key ∈ seen then Decoder.refuse (.duplicateKey key)
    else return (key, v) :: (← distinctPairs src value rest (seen ++ [key]))

/-- Reads a map whose order counts; null is an empty one. -/
def orderedMap {α : Type} (src : Source) (value : Nat → Node → Decoder α) (room : Nat) (n : Node) :
    Decoder (List (String × α)) := do
  match ← Decoder.follow src n with
  | .mapping tagged es =>
    if tagged then Decoder.refuse (.invalidType "enum" "a map")
    else do
      let room ← Decoder.enter room
      distinctPairs src (value room) es []
  | .sequence tagged ns =>
    if tagged then Decoder.refuse (.invalidType "enum" "a map")
    else Decoder.refuse (Decoder.misfit src "a map" (.sequence tagged ns))
  | .scalar s =>
    if s.tagged then Decoder.refuse (.invalidType "enum" "a map")
    else
      match s.reading with
      | .null => return []
      | r => Decoder.refuse (Decoder.scalarMisfit src.dialect r "a map")
  | n => Decoder.refuse (Decoder.misfit src "a map" n)

/-- The value of a field that has to be there. -/
def required {α : Type} (name : String) : Option α → Except Fault α
  | some a => .ok a
  | none => .error (.missingField name)

def Reference.decode (src : Source) : (room : Nat) → Node → Decoder Reference :=
  Decoder.record src "struct RefSpec" ["id"]
    (fun _ _ n _ => do return some (← Decoder.uint32 src n)) none
    (fun id => do return ⟨← required "id" id⟩)

def InputSpec.decode (src : Source) : (room : Nat) → Node → Decoder InputSpec :=
  Decoder.record src "struct InputSpec" ["id", "args"]
    (fun room name n (acc : Option UInt32 × Option Fields) => do
      if name = "id" then return (some (← Decoder.uint32 src n), acc.2)
      else return (acc.1, ← Decoder.optional src (Decoder.fields src room) n))
    (none, none)
    (fun acc => do return ⟨← required "id" acc.1, acc.2⟩)

def DescriptorSpec.decode (src : Source) : (room : Nat) → Node → Decoder DescriptorSpec :=
  Decoder.record src "struct DescriptorSpec" ["params"]
    (fun room _ n _ => orderedMap src (Entry.decode src (Reference.decode src)) room n)
    [] (fun params => .ok ⟨params⟩)

def ResourceSpec.decode (src : Source) : (room : Nat) → Node → Decoder ResourceSpec :=
  Decoder.record src "struct ResourceSpec" ["id", "descriptors", "dependencies"]
    (fun room name n
        (acc : Option UInt32 × List (String × DescriptorSpec) × List (Entry Reference)) => do
      if name = "id" then return (some (← Decoder.uint32 src n), acc.2)
      else if name = "descriptors" then
        return (acc.1, ← orderedMap src (DescriptorSpec.decode src) room n, acc.2.2)
      else
        return (acc.1, acc.2.1,
          ← Decoder.list src (Entry.decode src (Reference.decode src)) room n))
    (none, [], [])
    (fun acc => do return ⟨← required "id" acc.1, acc.2.1, acc.2.2⟩)

namespace Query

def decode (src : Source) : (room : Nat) → Node → Decoder Query :=
  Decoder.record src "struct MasQuery" ["input", "resources", "output"]
    (fun room name n (acc : Query) => do
      if name = "input" then
        return { acc with
          input := ← Decoder.list src (Entry.decode src (InputSpec.decode src)) room n }
      else if name = "resources" then
        return { acc with
          resources := ← Decoder.list src (Entry.decode src (ResourceSpec.decode src)) room n }
      else
        return { acc with
          output := ← Decoder.list src (Entry.decode src (Reference.decode src)) room n })
    empty .ok

/-- The document of a text that has been read. -/
def ofSource (src : Source) : Except Fault Query := Decoder.run src (decode src)

end Query

end HornPlan
