/-
  HornPlan/Yaml/Reader.lean
  =========================
  **Reading YAML text.**

  A source is the first document of a stream, which has to be the only one.  Its
  events are composed into a `Node`; where they end early, a `fault` is left.

  Anchors are numbered by how many different names were in use before them, and an
  alias keeps the number that its name had when it was met.  Several anchors may
  share a number; then the last of them is what the aliases refer to.  At most
  a hundred aliases for every event of the document may be followed.

  Specification, section E.10: documents in YAML.
-/
import HornPlan.Yaml.Event
import HornPlan.Yaml.Scanner
import HornPlan.Node.Source

namespace HornPlan.Yaml

def dialect : Dialect :=
  { nullName := "unit value", numerals := NumeralStyle.plain, positional := false, depth := 128 }

/-- An event inside a document, with anchors resolved. -/
inductive Mark where
  | link (target : Nat)
  | scalar (s : Scalar)
  | sequenceStart (tagged : Bool)
  | sequenceEnd
  | mappingStart (tagged : Bool)
  | mappingEnd
deriving Repr, Inhabited

/-- The marks of a document so far, last first; the number of each anchor name; and
    the position of the node behind each number, last first. -/
structure Loading where
  marks : List Mark
  names : List (String × Nat)
  positions : List (Nat × Nat)
deriving Repr, Inhabited

namespace Loading

/-- Numbers an anchor that stands at the next mark. -/
def anchor (l : Loading) : Option String → Loading
  | none => l
  | some name =>
    let number := l.names.length
    { l with
      names := (name, number) :: l.names.filter (·.1 ≠ name)
      positions := (number, l.marks.length) :: l.positions }

def mark (l : Loading) (m : Mark) : Loading := { l with marks := m :: l.marks }

/-- Adds an event; an alias to a name that is not in use is refused. -/
def event? (l : Loading) : Event → Option Loading
  | .link name => (l.names.lookup name).map fun number => l.mark (.link number)
  | .scalar a tag text style => some ((l.anchor a).mark (.scalar (scalar text style tag)))
  | .sequenceStart a tag => some ((l.anchor a).mark (.sequenceStart (tag.any Tag.namesVariant)))
  | .sequenceEnd => some (l.mark .sequenceEnd)
  | .mappingStart a tag => some ((l.anchor a).mark (.mappingStart (tag.any Tag.namesVariant)))
  | .mappingEnd => some (l.mark .mappingEnd)
  | .streamStart | .streamEnd | .documentStart | .documentEnd => some l

/-- Loads the events of the first document.  The rest of the events is returned
    when the document ended properly. -/
def document (l : Loading) : List Event → Loading × Option (List Event)
  | [] => (l, none)
  | .documentEnd :: rest => (l, some rest)
  | .streamEnd :: _ => (l, some [.streamEnd])
  | e :: rest =>
    match l.event? e with
    | some l => document l rest
    | none => (l, none)

end Loading

mutual

/-- The node at the front of a list of marks, and the marks behind it. -/
def compose : (fuel : Nat) → List Mark → Node × List Mark
  | 0, _ => (.fault, [])
  | fuel + 1, ms =>
    match ms with
    | .link t :: rest => (.link t, rest)
    | .scalar s :: rest => (.scalar s, rest)
    | .sequenceStart tagged :: rest =>
      let (items, rest) := composeItems fuel rest
      (.sequence tagged items, rest)
    | .mappingStart tagged :: rest =>
      let (entries, rest) := composeEntries fuel rest
      (.mapping tagged entries, rest)
    | _ => (.fault, [])

def composeItems : (fuel : Nat) → List Mark → List Node × List Mark
  | 0, _ => ([.fault], [])
  | fuel + 1, ms =>
    match ms with
    | .sequenceEnd :: rest => ([], rest)
    | [] => ([.fault], [])
    | ms =>
      let (n, rest) := compose fuel ms
      let (ns, rest) := composeItems fuel rest
      (n :: ns, rest)

def composeEntries : (fuel : Nat) → List Mark → List (Node × Node) × List Mark
  | 0, _ => ([(.fault, .fault)], [])
  | fuel + 1, ms =>
    match ms with
    | .mappingEnd :: rest => ([], rest)
    | [] => ([(.fault, .fault)], [])
    | ms =>
      let (k, rest) := compose fuel ms
      let (v, rest) := compose fuel rest
      let (es, rest) := composeEntries fuel rest
      ((k, v) :: es, rest)

end

/-- The node that begins at a position of a document. -/
def nodeAt (marks : List Mark) (position : Nat) : Node :=
  (compose (2 * marks.length + 2) (marks.drop position)).1

/-- Reads a YAML text.  A text without a document reads as a blank scalar. -/
def read (text : String) : Source :=
  let (loading, rest) := Loading.document ⟨[], [], []⟩ (events (tokens text))
  let marks := loading.marks.reverse
  let nothing : Bool := marks.isEmpty && rest.isSome
  { dialect
    root := if nothing then .scalar (scalar "" .plain none) else nodeAt marks 0
    anchors := loading.positions.map fun (number, position) => (number, nodeAt marks position)
    jumps := 100 * max 1 marks.length
    complete := rest = some [.streamEnd] }

end HornPlan.Yaml
