/-
  HornPlan/Node/Decoder.lean
  ==========================
  **Typed reading of nodes.**

  A `Decoder` turns nodes of one source into values of a type.  It visits the
  nodes in the order of the text and stops at the first one that does not fit,
  so the reason it gives is the first in the text.  Its state is the number of
  aliases followed so far, which the source limits; the number of collections
  that may still be opened is passed down as `room`.
-/
import HornPlan.Node.Source
import HornPlan.Node.Fault
import HornPlan.Text.Quoted

namespace HornPlan

/-- A reading that counts the aliases it follows and may be refused. -/
abbrev Decoder (α : Type) := StateT Nat (Except Fault) α

namespace Decoder

def refuse {α : Type} (f : Fault) : Decoder α := fun _ => .error f

/-! ### Naming what was found -/

/-- An infinity or a number that is none, as a message writes it. -/
def nonFiniteName : Option Bool → String
  | some true => "-inf"
  | some false => "inf"
  | none => "NaN"

/-- The reason why a scalar does not fit. -/
def scalarMisfit (d : Dialect) (r : Reading) (expected : String) : Fault :=
  match r with
  | .null => .invalidType d.nullName expected
  | .bool b => .invalidType ("boolean " ++ Fault.ticked (toString b)) expected
  | .int n => .invalidType ("integer " ++ Fault.ticked (toString n)) expected
  | .real x => .invalidType ("floating point " ++ Fault.ticked (d.numerals.render x)) expected
  | .nonFinite sign =>
    .invalidType ("floating point " ++ Fault.ticked (nonFiniteName sign)) expected
  | .text s => .invalidType ("string " ++ Text.quoted s) expected
  | .wide n =>
    let width := if n < 0 then " as i128" else " as u128"
    .invalidType ("integer " ++ Fault.ticked (toString n) ++ width) expected
  | .misfit s wanted => .invalidValue ("string " ++ Text.quoted s) wanted
  | .unreadable => .malformed

/-- The reason why a node does not fit. -/
def misfit (src : Source) (expected : String) : Node → Fault
  | .scalar s => scalarMisfit src.dialect s.reading expected
  | .sequence _ _ => .invalidType "sequence" expected
  | .mapping _ _ => .invalidType "map" expected
  | .link _ | .fault => .malformed

/-! ### Single nodes -/

/-- The node itself, or the anchored node that an alias refers to.  Aliases may be
    followed only so often in one source. -/
def follow (src : Source) : Node → Decoder Node
  | .link target => fun followed =>
    if src.jumps < followed + 1 then .error .malformed
    else
      match src.anchors.lookup target with
      | some node => .ok (node, followed + 1)
      | none => .error .malformed
  | node => pure node

/-- A node where a text is asked for. -/
def text (src : Source) (expected : String) (n : Node) : Decoder String := do
  match ← follow src n with
  | .scalar s =>
    match s.asText with
    | some t => return t
    | none => refuse (scalarMisfit src.dialect s.reading expected)
  | n => refuse (misfit src expected n)

/-- A node where a natural number below `2 ^ 32` is asked for. -/
def uint32 (src : Source) (n : Node) : Decoder UInt32 := do
  match ← follow src n with
  | .scalar s =>
    match s.asInteger with
    | some i =>
      if 0 ≤ i ∧ i < (twoTo 32 : Int) then return UInt32.ofNat i.toNat
      else refuse (.invalidValue ("integer " ++ Fault.ticked (toString i)) "u32")
    | none => refuse (scalarMisfit src.dialect s.reading "u32")
  | n => refuse (misfit src "u32" n)

def skip (n : Node) : Decoder Unit :=
  if n.sound then pure () else refuse .malformed

/-! ### Collections -/

def enter : Nat → Decoder Nat
  | 0 => refuse .malformed
  | room + 1 => pure room

/-- The entries of a mapping; a blank scalar is an empty one. -/
def entries (src : Source) (expected : String) (room : Nat) (n : Node) :
    Decoder (Nat × List (Node × Node)) := do
  match ← follow src n with
  | .mapping _ es => return (← enter room, es)
  | .scalar s =>
    if s.blank then return (room, []) else refuse (scalarMisfit src.dialect s.reading expected)
  | n => refuse (misfit src expected n)

/-- The items of a sequence; a blank scalar is an empty one. -/
def items (src : Source) (room : Nat) (n : Node) : Decoder (Nat × List Node) := do
  match ← follow src n with
  | .sequence _ ns => return (← enter room, ns)
  | .scalar s =>
    if s.blank then return (room, []) else refuse (scalarMisfit src.dialect s.reading "a sequence")
  | n => refuse (misfit src "a sequence" n)

/-- A list whose items are read by `item`, which is told the room left. -/
def list {α : Type} (src : Source) (item : Nat → Node → Decoder α) (room : Nat) (n : Node) :
    Decoder (List α) := do
  let (room, ns) ← items src room n
  ns.mapM (item room)

/-! ### Value trees -/

/-- What a reader without expectations calls its expectation. -/
def anyValue : String := "any valid JSON value"

def scalarValue (src : Source) (s : Scalar) : Decoder Value :=
  if s.tagged then refuse (.invalidType "enum" anyValue)
  else
    match s.reading with
    | .null | .nonFinite _ => pure .null
    | .bool b => pure (.bool b)
    | .int n => pure (.number (.int n))
    | .real x => pure (.number (.real x))
    | .text t => pure (.text t)
    | .wide _ | .unreadable => refuse .malformed
    | r => refuse (scalarMisfit src.dialect r anyValue)

/-- The keys and values of a map.  The first key is called for by another name than
    the others when `first` says so. -/
def pairs {α : Type} (src : Source) (value : Node → Decoder α) :
    (keyName : String) → List (Node × Node) → Decoder (List (String × α))
  | _, [] => pure []
  | keyName, (k, v) :: rest => do
    let key ← text src keyName k
    let v ← value v
    return (key, v) :: (← pairs src value "a string" rest)

/-- A value tree.  Maps are brought into field order, a later entry replacing an
    earlier one with the same key. -/
def value (src : Source) : (room : Nat) → Node → Decoder Value
  | room, n => do
    match ← follow src n with
    | .scalar s => scalarValue src s
    | .sequence tagged ns =>
      if tagged then refuse (.invalidType "enum" anyValue)
      else
        match room with
        | 0 => refuse .malformed
        | room + 1 => return .list (← ns.mapM (value src room))
    | .mapping tagged es =>
      if tagged then refuse (.invalidType "enum" anyValue)
      else
        match room with
        | 0 => refuse .malformed
        | room + 1 => return .map (Fields.ofList (← pairs src (value src room) "a string key" es))
    | .link _ | .fault => refuse .malformed

def fields (src : Source) (room : Nat) (n : Node) : Decoder Fields := do
  let (room, es) ← entries src "a map" room n
  return Fields.ofList (← pairs src (value src room) "a string" es)

def optional {α : Type} (src : Source) (part : Node → Decoder α) (n : Node) :
    Decoder (Option α) := do
  match ← follow src n with
  | .scalar s =>
    if s.absent then return none
    else
      match s.reading with
      | .misfit t "null" => refuse (scalarMisfit src.dialect (.misfit t "null") "")
      | _ => return some (← part (.scalar s))
  | n => return some (← part n)

/-! ### Records -/

/-- Reads the entries of a record in the order of the text.  Fields that the record
    does not have are passed over; one that comes twice is refused. -/
def recordEntries {σ : Type} (src : Source) (known : List String)
    (field : String → Node → σ → Decoder σ) :
    List (Node × Node) → (seen : List String) → σ → Decoder σ
  | [], _, acc => pure acc
  | (k, v) :: rest, seen, acc => do
    let name ← text src "field identifier" k
    if name ∈ known then
      if name ∈ seen then refuse (.duplicateField name)
      else recordEntries src known field rest (name :: seen) (← field name v acc)
    else
      skip v
      recordEntries src known field rest seen acc

/-- Reads the parts of a record that is written as a list. -/
def recordItems {σ : Type} (field : String → Node → σ → Decoder σ) :
    (known : List String) → List Node → σ → Decoder σ
  | _, [], acc => pure acc
  | [], _ :: _, _ => refuse .malformed
  | name :: known, n :: rest, acc => do recordItems field known rest (← field name n acc)

/-- A record: its fields are read into `acc` one by one, then `finish` makes the
    result or names the field that is missing. -/
def record {σ α : Type} (src : Source) (expected : String) (known : List String)
    (field : Nat → String → Node → σ → Decoder σ) (acc : σ) (finish : σ → Except Fault α)
    (room : Nat) (n : Node) : Decoder α := do
  match ← follow src n with
  | .mapping _ es => do
    let room ← enter room
    let acc ← recordEntries src known (field room) es [] acc
    match finish acc with
    | .ok a => return a
    | .error f => refuse f
  | .sequence tagged ns =>
    if src.dialect.positional then do
      let room ← enter room
      let acc ← recordItems (field room) known ns acc
      match finish acc with
      | .ok a => return a
      | .error _ => refuse .malformed
    else refuse (misfit src expected (.sequence tagged ns))
  | .scalar s =>
    if s.blank then
      match finish acc with
      | .ok a => return a
      | .error f => refuse f
    else refuse (scalarMisfit src.dialect s.reading expected)
  | n => refuse (misfit src expected n)

/-! ### Whole sources -/

/-- Reads the root of a source, which has to be all that the text holds. -/
def run {α : Type} (src : Source) (decoder : (room : Nat) → Node → Decoder α) : Except Fault α :=
  match decoder src.dialect.depth src.root 0 with
  | .error f => .error f
  | .ok (a, _) => if src.complete then .ok a else .error .malformed

end Decoder

end HornPlan
