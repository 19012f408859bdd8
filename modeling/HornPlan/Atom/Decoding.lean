/-
  HornPlan/Atom/Decoding.lean
  ===========================
  **Atoms read from nodes.**

  An atom is a map with its kind under the key `kind` and its parts under further
  keys, or a list that begins with the kind.  The kind may come last in a map, so
  the other entries are gone through once, and taken apart when the kind is known.

  Specification, section E.1: the written form of an `Atom`.
-/
import HornPlan.Atom
import HornPlan.Node.Decoder

namespace HornPlan

/-- The id of an instance, which is positive and below `2 ^ 32`. -/
def InstanceId.decode (src : Source) (n : Node) : Decoder InstanceId := do
  let expected := "a nonzero u32"
  match ← Decoder.follow src n with
  | .scalar s =>
    match s.reading with
    | .int i =>
      let id :=
        if 0 ≤ i ∧ i < (twoTo 32 : Int) then InstanceId.ofNumber? (UInt32.ofNat i.toNat)
        else none
      match id with
      | some id => return id
      | none => Decoder.refuse (.invalidValue ("integer " ++ Fault.ticked (toString i)) expected)
    | r => Decoder.refuse (Decoder.scalarMisfit src.dialect r expected)
  | n => Decoder.refuse (Decoder.misfit src expected n)

namespace Tuple

/-- The parts of a tuple read so far. -/
structure Parts where
  type : Option String
  id : Option InstanceId

def decode (src : Source) : (room : Nat) → Node → Decoder Tuple :=
  Decoder.record src "struct ResourceTuple" ["ty", "id"]
    (fun _ name n (acc : Parts) => do
      if name = "ty" then return { acc with type := some (← Decoder.text src "a string" n) }
      else return { acc with id := ← Decoder.optional src (InstanceId.decode src) n })
    ⟨none, none⟩
    (fun acc =>
      match acc.type with
      | some type => .ok ⟨type, acc.id⟩
      | none => .error (.missingField "ty"))

end Tuple

namespace Atom

def kinds : List String := ["resource", "property", "all_dependencies"]

def decodeKind (src : Source) (n : Node) : Decoder String := do
  let kind ← Decoder.text src "variant identifier" n
  if kind ∈ kinds then return kind else Decoder.refuse (.unknownVariant kind kinds)

/-- Goes through the entries of an atom: its kind, and the other entries. -/
def splitKind (src : Source) (room : Nat) :
    List (Node × Node) → Option String → Decoder (Option String × List (Node × Node))
  | [], kind => pure (kind, [])
  | (k, v) :: rest, kind => do
    let key ← Decoder.text src "a string" k
    if key = "kind" then
      if kind.isSome then Decoder.refuse (.duplicateField "kind")
      else splitKind src room rest (some (← decodeKind src v))
    else do
      let _ ← Decoder.value src room v
      let (kind, others) ← splitKind src room rest kind
      return (kind, (k, v) :: others)

/-- A property from a node that holds its predicate and subject. -/
def decodeProperty (src : Source) : (room : Nat) → Node → Decoder Atom :=
  Decoder.record src "struct variant Atom::Property" ["predicate", "subject"]
    (fun room name n (acc : Option String × Option Tuple) => do
      if name = "predicate" then return (some (← Decoder.text src "a string" n), acc.2)
      else return (acc.1, some (← Tuple.decode src room n)))
    (none, none)
    (fun acc =>
      match acc with
      | (some predicate, some subject) => .ok (.property predicate subject)
      | (none, _) => .error (.missingField "predicate")
      | (some _, none) => .error (.missingField "subject"))

/-- An atom of a kind from a node that holds its parts. -/
def decodeParts (src : Source) (room : Nat) (kind : String) (parts : Node) : Decoder Atom := do
  if kind = "property" then decodeProperty src room parts
  else
    let t ← Tuple.decode src room parts
    return if kind = "resource" then .resource t else .allDependencies t

def decode (src : Source) (room : Nat) (n : Node) : Decoder Atom := do
  match ← Decoder.follow src n with
  | .mapping tagged es =>
    let inner ← Decoder.enter room
    match ← splitKind src inner es none with
    | (some kind, others) => decodeParts src room kind (.mapping tagged others)
    | (none, _) => Decoder.refuse (.missingField "kind")
  | .sequence _ [] => Decoder.refuse (.missingField "kind")
  | .sequence tagged (first :: others) =>
    let inner ← Decoder.enter room
    let kind ← decodeKind src first
    let _ ← others.mapM (Decoder.value src inner)
    decodeParts src room kind (.sequence tagged others)
  | n => Decoder.refuse (Decoder.misfit src "internally tagged enum Atom" n)

/-- The atom of a text that has been read. -/
def ofSource (src : Source) : Except Fault Atom := Decoder.run src (decode src)

end Atom

end HornPlan
