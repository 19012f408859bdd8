/-
  HornPlan/Yaml/Event.lean
  ========================
  **The structure of a YAML stream.**

  Events say where scalars, aliases, sequences and mappings stand.  They are read
  off the tokens by a machine with a stack of states: a state says what may come
  next, and a finished node returns to the state below.  Parts that are left out
  (an entry without a node, a key without a value) become empty plain scalars.

  `events` stops at the first token that does not fit, or when the tokens end.
-/
import HornPlan.Yaml.Token

namespace HornPlan.Yaml

inductive Event where
  | streamStart
  | streamEnd
  | documentStart
  | documentEnd
  | link (name : String)
  | scalar (anchor : Option String) (tag : Option Tag) (text : String) (style : Style)
  | sequenceStart (anchor : Option String) (tag : Option Tag)
  | sequenceEnd
  | mappingStart (anchor : Option String) (tag : Option Tag)
  | mappingEnd
deriving DecidableEq, Repr, Inhabited

/-- What may come next. -/
inductive State where
  | streamStart
  | documentStart (implicit : Bool)
  | documentContent
  | documentEnd
  | blockNode
  | blockSequenceEntry (first : Bool)
  | indentlessSequenceEntry
  | blockMappingKey (first : Bool)
  | blockMappingValue
  | flowSequenceEntry (first : Bool)
  | flowPairKey
  | flowPairValue
  | flowPairEnd
  | flowMappingKey (first : Bool)
  | flowMappingValue (empty : Bool)
  | done
deriving DecidableEq, Repr, Inhabited

structure Machine where
  tokens : List Token
  state : State
  stack : List State
  /-- What tag handles stand for in the current document. -/
  handles : List (String × Tag)
deriving Repr, Inhabited

namespace Machine

/-- One event and the machine behind it; nothing when no token fits. -/
abbrev Step := Option (Event × Machine)

def emptyScalar : Event := .scalar none none "" .plain

def goto (m : Machine) (s : State) : Machine := { m with state := s }

def return_ (m : Machine) : Machine :=
  match m.stack with
  | s :: rest => { m with state := s, stack := rest }
  | [] => { m with state := .done }

def later (m : Machine) (s : State) : Machine := { m with stack := s :: m.stack }

def drop (m : Machine) : Machine := { m with tokens := m.tokens.drop 1 }

def front (m : Machine) : Option Token := m.tokens.head?

/-! ### Documents -/

def isDirective : Token → Bool
  | .versionDirective _ _ | .tagDirective _ _ => true
  | _ => false

/-- The directives in front of a document, each version and handle given once. -/
def directives? : (version : Bool) → List (String × Tag) → List Token →
    Option (List (String × Tag) × List Token)
  | version, handles, .versionDirective major minor :: rest =>
    if version || major ≠ 1 || (minor ≠ 1 && minor ≠ 2) then none
    else directives? true handles rest
  | version, handles, .tagDirective handle stem :: rest =>
    if (handles.lookup handle).isSome then none
    else directives? version (handles ++ [(handle, stem)]) rest
  | _, handles, rest => some (handles, rest)

/-- Reads the directives; two handles are always known. -/
def directives (m : Machine) : Option Machine :=
  (directives? false [] m.tokens).map fun (handles, tokens) =>
    { m with tokens, handles := handles ++ [("!", Tag.bare), ("!!", Tag.standard "")] }

def isDocumentEnd : Token → Bool
  | .documentEnd => true
  | _ => false

def documentStart (m : Machine) (implicit : Bool) : Step := do
  let m := if implicit then m else { m with tokens := m.tokens.dropWhile isDocumentEnd }
  let t ← m.front
  match t with
  | .streamEnd => return (.streamEnd, (m.goto .done).drop)
  | t =>
    if implicit && !isDirective t && t ≠ .documentStart then
      let m ← m.directives
      return (.documentStart, (m.later .documentEnd).goto .blockNode)
    else
      let m ← m.directives
      if m.front = some .documentStart then
        return (.documentStart, ((m.later .documentEnd).goto .documentContent).drop)
      else none

def documentEnd (m : Machine) : Step := do
  let t ← m.front
  let m := if t = .documentEnd then m.drop else m
  return (.documentEnd, { m.goto (.documentStart false) with handles := [] })

/-! ### Nodes -/

/-- The anchor and the tag in front of a node, in either order. -/
structure Properties where
  anchor : Option String
  tag : Option (String × Tag)

def properties : List Token → Properties × List Token
  | .anchor a :: .tag h s :: rest => (⟨some a, some (h, s)⟩, rest)
  | .tag h s :: .anchor a :: rest => (⟨some a, some (h, s)⟩, rest)
  | .anchor a :: rest => (⟨some a, none⟩, rest)
  | .tag h s :: rest => (⟨none, some (h, s)⟩, rest)
  | rest => (⟨none, none⟩, rest)

/-- The full tag of a node; a handle that is not known is refused. -/
def fullTag? (m : Machine) : Option (String × Tag) → Option (Option Tag)
  | none => some none
  | some (handle, suffix) =>
    if handle.isEmpty then some (some suffix)
    else (m.handles.lookup handle).map fun stem => some (stem.append suffix)

/-- A node: an alias, or properties and content. -/
def node (m : Machine) (block indentless : Bool) : Step := do
  match ← m.front with
  | .link name => return (.link name, m.return_.drop)
  | _ =>
    let (p, tokens) := properties m.tokens
    let m := { m with tokens }
    let t ← m.front
    let tag ← m.fullTag? p.tag
    match t with
    | .scalar text style => return (.scalar p.anchor tag text style, m.return_.drop)
    | .flowSequenceStart => return (.sequenceStart p.anchor tag, m.goto (.flowSequenceEntry true))
    | .flowMappingStart => return (.mappingStart p.anchor tag, m.goto (.flowMappingKey true))
    | t =>
      if indentless && t = .blockEntry then
        return (.sequenceStart p.anchor tag, m.goto .indentlessSequenceEntry)
      else if block && t = .blockSequenceStart then
        return (.sequenceStart p.anchor tag, m.goto (.blockSequenceEntry true))
      else if block && t = .blockMappingStart then
        return (.mappingStart p.anchor tag, m.goto (.blockMappingKey true))
      else if p.anchor.isSome || p.tag.isSome then
        return (.scalar p.anchor tag "" .plain, m.return_)
      else none

def missing (m : Machine) (next : State) : Step := some (emptyScalar, m.goto next)

def documentContent (m : Machine) : Step := do
  let t ← m.front
  if isDirective t || t ∈ [Token.documentStart, .documentEnd, .streamEnd] then
    return (emptyScalar, m.return_)
  else m.node true false

/-! ### Block collections -/

def blockSequenceEntry (m : Machine) (first : Bool) : Step := do
  let m := if first then m.drop else m
  match ← m.front with
  | .blockEntry =>
    let m := m.drop
    let t ← m.front
    if t ∈ [Token.blockEntry, .blockEnd] then m.missing (.blockSequenceEntry false)
    else (m.later (.blockSequenceEntry false)).node true false
  | .blockEnd => return (.sequenceEnd, m.return_.drop)
  | _ => none

def indentlessSequenceEntry (m : Machine) : Step := do
  match ← m.front with
  | .blockEntry =>
    let m := m.drop
    let t ← m.front
    if t ∈ [Token.blockEntry, .key, .value, .blockEnd] then m.missing .indentlessSequenceEntry
    else (m.later .indentlessSequenceEntry).node true false
  | _ => return (.sequenceEnd, m.return_)

def blockMappingKey (m : Machine) (first : Bool) : Step := do
  let m := if first then m.drop else m
  match ← m.front with
  | .key =>
    let m := m.drop
    let t ← m.front
    if t ∈ [Token.key, .value, .blockEnd] then m.missing .blockMappingValue
    else (m.later .blockMappingValue).node true true
  | .blockEnd => return (.mappingEnd, m.return_.drop)
  | _ => none

def blockMappingValue (m : Machine) : Step := do
  match ← m.front with
  | .value =>
    let m := m.drop
    let t ← m.front
    if t ∈ [Token.key, .value, .blockEnd] then m.missing (.blockMappingKey false)
    else (m.later (.blockMappingKey false)).node true true
  | _ => m.missing (.blockMappingKey false)

/-! ### Flow collections -/

/-- The comma between entries, which the first entry goes without. -/
def comma (m : Machine) (first : Bool) : Option Machine :=
  if first then some m else if m.front = some .flowEntry then some m.drop else none

def flowSequenceEntry (m : Machine) (first : Bool) : Step := do
  let m := if first then m.drop else m
  let t ← m.front
  if t = .flowSequenceEnd then return (.sequenceEnd, m.return_.drop)
  else
    let m ← m.comma first
    match ← m.front with
    | .key => return (.mappingStart none none, (m.goto .flowPairKey).drop)
    | .flowSequenceEnd => return (.sequenceEnd, m.return_.drop)
    | _ => (m.later (.flowSequenceEntry false)).node false false

/-- The key of a pair inside a sequence.  A token that stands where the key is
    missing is passed over. -/
def flowPairKey (m : Machine) : Step := do
  let t ← m.front
  if t ∈ [Token.value, .flowEntry, .flowSequenceEnd] then m.drop.missing .flowPairValue
  else (m.later .flowPairValue).node false false

def flowPairValue (m : Machine) : Step := do
  match ← m.front with
  | .value =>
    let m := m.drop
    let t ← m.front
    if t ∈ [Token.flowEntry, .flowSequenceEnd] then m.missing .flowPairEnd
    else (m.later .flowPairEnd).node false false
  | _ => m.missing .flowPairEnd

def flowPairEnd (m : Machine) : Step := do
  let _ ← m.front
  return (.mappingEnd, m.goto (.flowSequenceEntry false))

def flowMappingKey (m : Machine) (first : Bool) : Step := do
  let m := if first then m.drop else m
  let t ← m.front
  if t = .flowMappingEnd then return (.mappingEnd, m.return_.drop)
  else
    let m ← m.comma first
    match ← m.front with
    | .key =>
      let m := m.drop
      let t ← m.front
      if t ∈ [Token.value, .flowEntry, .flowMappingEnd] then m.missing (.flowMappingValue false)
      else (m.later (.flowMappingValue false)).node false false
    | .flowMappingEnd => return (.mappingEnd, m.return_.drop)
    | _ => (m.later (.flowMappingValue true)).node false false

def flowMappingValue (m : Machine) (empty : Bool) : Step := do
  let t ← m.front
  if empty then m.missing (.flowMappingKey false)
  else if t = .value then
    let m := m.drop
    let t ← m.front
    if t ∈ [Token.flowEntry, .flowMappingEnd] then m.missing (.flowMappingKey false)
    else (m.later (.flowMappingKey false)).node false false
  else m.missing (.flowMappingKey false)

/-! ### The whole stream -/

def step (m : Machine) : Step :=
  match m.state with
  | .streamStart =>
    if m.front = some .streamStart then some (.streamStart, (m.goto (.documentStart true)).drop)
    else none
  | .documentStart implicit => m.documentStart implicit
  | .documentContent => m.documentContent
  | .documentEnd => m.documentEnd
  | .blockNode => m.node true false
  | .blockSequenceEntry first => m.blockSequenceEntry first
  | .indentlessSequenceEntry => m.indentlessSequenceEntry
  | .blockMappingKey first => m.blockMappingKey first
  | .blockMappingValue => m.blockMappingValue
  | .flowSequenceEntry first => m.flowSequenceEntry first
  | .flowPairKey => m.flowPairKey
  | .flowPairValue => m.flowPairValue
  | .flowPairEnd => m.flowPairEnd
  | .flowMappingKey first => m.flowMappingKey first
  | .flowMappingValue empty => m.flowMappingValue empty
  | .done => none

def run : (fuel : Nat) → Machine → List Event
  | 0, _ => []
  | fuel + 1, m =>
    match m.step with
    | some (e, m) => e :: run fuel m
    | none => []

end Machine

/-- The events of a list of tokens, up to the end of the stream or to the first
    token that does not fit. -/
def events (tokens : List Token) : List Event :=
  Machine.run (4 * tokens.length + 16) ⟨tokens, .streamStart, [], []⟩

end HornPlan.Yaml
