/-
  HornPlan/Json/Text.lean
  =======================
  **Value trees as JSON text.**

  Two layouts: `compact`, on one line without blanks, and `pretty`, with one
  entry a line and two blanks a level.  Map entries appear in the order of the
  tree.  Numbers with a fraction are written with their fewest digits; the
  exponent of ten is used below `1e-5` and from `1e16` on, with a sign.

  Specification, sections D and E.9: output in JSON.
-/
import HornPlan.Decimal.Shortest
import HornPlan.Value

namespace HornPlan.Json

def numerals : NumeralStyle := ⟨-5, 15, true⟩

def number : Number → String
  | .int n => toString n
  | .real x => numerals.render x

/-! ### Quoted texts -/

/-- A character inside quotes: quotes, backslashes and control characters are
    escaped, everything else stands for itself. -/
def escaped (c : Char) : List Char :=
  if c = '"' then ['\\', '"']
  else if c = '\\' then ['\\', '\\']
  else if c = '\n' then ['\\', 'n']
  else if c = '\r' then ['\\', 'r']
  else if c = '\t' then ['\\', 't']
  else if c = '\x08' then ['\\', 'b']
  else if c = '\x0c' then ['\\', 'f']
  else if c.toNat < 0x20 then
    ['\\', 'u', '0', '0', Nat.digitChar (c.toNat / 16), Nat.digitChar (c.toNat % 16)]
  else [c]

def quoted (s : String) : String :=
  String.ofList ('"' :: s.toList.flatMap escaped ++ ['"'])

/-! ### Layouts -/

mutual

def compact : Value → String
  | .null => "null"
  | .bool b => if b then "true" else "false"
  | .number n => number n
  | .text s => quoted s
  | .list items => "[" ++ ",".intercalate (compactItems items) ++ "]"
  | .map entries => "\x7b" ++ ",".intercalate (compactEntries entries) ++ "\x7d"

def compactItems : List Value → List String
  | [] => []
  | v :: rest => compact v :: compactItems rest

def compactEntries : List (String × Value) → List String
  | [] => []
  | (k, v) :: rest => (quoted k ++ ":" ++ compact v) :: compactEntries rest

end

/-- `2 * level` blanks. -/
def margin (level : Nat) : String := String.ofList (List.replicate (2 * level) ' ')

/-- Lines at one level between an opening and a closing bracket. -/
def bracketed (opening closing : String) (level : Nat) (lines : List String) : String :=
  if lines.isEmpty then opening ++ closing
  else
    opening ++ "\n" ++ ",\n".intercalate (lines.map (margin (level + 1) ++ ·)) ++ "\n"
      ++ margin level ++ closing

mutual

/-- The tree on several lines, its own brackets standing at `level`. -/
def pretty (level : Nat) : Value → String
  | .null => "null"
  | .bool b => if b then "true" else "false"
  | .number n => number n
  | .text s => quoted s
  | .list items => bracketed "[" "]" level (prettyItems (level + 1) items)
  | .map entries => bracketed "\x7b" "\x7d" level (prettyEntries (level + 1) entries)

def prettyItems (level : Nat) : List Value → List String
  | [] => []
  | v :: rest => pretty level v :: prettyItems level rest

def prettyEntries (level : Nat) : List (String × Value) → List String
  | [] => []
  | (k, v) :: rest => (quoted k ++ ": " ++ pretty level v) :: prettyEntries level rest

end

end HornPlan.Json
