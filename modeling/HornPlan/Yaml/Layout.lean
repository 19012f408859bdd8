/-
  HornPlan/Yaml/Layout.lean
  =========================
  **Value trees as YAML text.**

  Collections are written in block layout, two columns a level; the items of a
  list under a key stand in the column of the key.  Empty collections are `[]` and
  `{}`.  A text is written plain where it reads back as that text, in single quotes
  where it would read as something else, in double quotes where it holds characters
  that need an escape, and as a literal block where it has several lines.  A key that
  is longer than 128 octets or has several lines is marked with `?`.

  Specification, sections E.8 and E.10: reports and documents in YAML.
-/
import HornPlan.Yaml.Scalar
import HornPlan.Yaml.Cursor
import HornPlan.Value

namespace HornPlan.Yaml

def numerals : NumeralStyle := ⟨-5, 15, false⟩

/-- `n` blanks. -/
def margin (n : Nat) : String := String.ofList (List.replicate n ' ')

/-! ### What a text allows -/

/-- A character that may be shown without an escape. -/
def isPrintable (c : Char) : Bool :=
  let n := c.toNat
  n = 0x0A || (0x20 ≤ n && n ≤ 0x7E) || (0xA0 ≤ n && n ≤ 0xD7FF)
    || (0xE000 ≤ n && n ≤ 0xFFFD && n ≠ 0xFEFF) || 0x10000 ≤ n

/-- Indicators that may not begin a plain text. -/
def isLeadingIndicator (c : Char) : Bool :=
  c ∈ ['#', ',', '[', ']', '\x7b', '\x7d', '&', '*', '!', '|', '>', '\'', '"', '%', '@', '\x60']

/-- Is there a colon before a blank, or a `#` behind one?  `before` says whether a
    blank stands in front. -/
def hasInnerIndicator : (before : Bool) → List Char → Bool
  | _, [] => false
  | before, c :: rest =>
    (c = ':' && atBlankOrEnd rest) || (c = '#' && before)
      || hasInnerIndicator (isSpace c || isBreak c) rest

/-- Would a plain text be taken for something else in block layout? -/
def hasIndicator (cs : List Char) : Bool :=
  match cs with
  | [] => false
  | c :: rest =>
    cs.take 3 = ['-', '-', '-'] || cs.take 3 = ['.', '.', '.'] || isLeadingIndicator c
      || ((c = '?' || c = ':' || c = '-') && atBlankOrEnd rest)
      || hasInnerIndicator (isSpace c || isBreak c) rest

/-- Does a character of the first kind come right before one of the second kind? -/
def hasPair (p q : Char → Bool) : List Char → Bool
  | a :: b :: rest => (p a && q b) || hasPair p q (b :: rest)
  | _ => false

/-- What may be done with a text. -/
structure Features where
  multiline : Bool
  plain : Bool
  single : Bool
  block : Bool
deriving DecidableEq, Repr

def features (cs : List Char) : Features :=
  let space (c : Char) : Bool := c = ' '
  let multiline := cs.any isBreak
  let edge (c : Option Char) : Bool := c.any fun c => space c || isBreak c
  let special := cs.any (fun c => !isPrintable c) || hasPair space isBreak cs
  let breakSpace := hasPair isBreak space cs
  { multiline
    plain := !(special || breakSpace || multiline || edge cs.head? || edge cs.getLast?
      || hasIndicator cs)
    single := !(special || breakSpace)
    block := !cs.isEmpty && !special && !cs.getLast?.any space }

/-! ### Scalars -/

/-- The escape of a character in double quotes. -/
def escaped (c : Char) : List Char :=
  let n := c.toNat
  let hex (width : Nat) : List Char :=
    let ds := (Nat.toDigits 16 n).map Char.toUpper
    List.replicate (width - ds.length) '0' ++ ds
  if n = 0x00 then ['\\', '0']
  else if n = 0x07 then ['\\', 'a']
  else if n = 0x08 then ['\\', 'b']
  else if n = 0x09 then ['\\', 't']
  else if n = 0x0A then ['\\', 'n']
  else if n = 0x0B then ['\\', 'v']
  else if n = 0x0C then ['\\', 'f']
  else if n = 0x0D then ['\\', 'r']
  else if n = 0x1B then ['\\', 'e']
  else if n = 0x22 then ['\\', '"']
  else if n = 0x5C then ['\\', '\\']
  else if n = 0x85 then ['\\', 'N']
  else if n = 0xA0 then ['\\', '_']
  else if n = 0x2028 then ['\\', 'L']
  else if n = 0x2029 then ['\\', 'P']
  else if n ≤ 0xFF then ['\\', 'x'] ++ hex 2
  else if n ≤ 0xFFFF then ['\\', 'u'] ++ hex 4
  else ['\\', 'U'] ++ hex 8

def doubleQuoted (cs : List Char) : String :=
  String.ofList ('"' :: cs.flatMap (fun c =>
    if !isPrintable c || isBreak c || c = '"' || c = '\\' then escaped c else [c]) ++ ['"'])

/-- The inside of single quotes.  Behind breaks the next character, and the closing
    quote, are indented; a first line feed is written twice. -/
def singleQuotedBody (indent : Nat) : (broken : Bool) → List Char → List Char
  | broken, [] => if broken then List.replicate indent ' ' else []
  | broken, c :: rest =>
    if c = ' ' then c :: singleQuotedBody indent broken rest
    else if isBreak c then
      (if !broken && c = '\n' then ['\n'] else []) ++ c :: singleQuotedBody indent true rest
    else
      (if broken then List.replicate indent ' ' else []) ++
        (if c = '\'' then ['\''] else []) ++ c :: singleQuotedBody indent false rest

def singleQuoted (indent : Nat) (cs : List Char) : String :=
  String.ofList ('\'' :: singleQuotedBody indent false cs ++ ['\''])

/-- The lines of a literal block, each one with content indented. -/
def literalBody (indent : Nat) : (broken : Bool) → List Char → List Char
  | _, [] => []
  | broken, c :: rest =>
    if isBreak c then c :: literalBody indent true rest
    else (if broken then List.replicate indent ' ' else []) ++ c :: literalBody indent false rest

/-- A text as a literal block: a header that says how its indentation and its last
    breaks are to be read, and the lines. -/
def literal (indent : Nat) (cs : List Char) : String :=
  let hint := if cs.head?.any fun c => c = ' ' || isBreak c then "2" else ""
  let chomping :=
    match cs.reverse with
    | c :: rest =>
      if !isBreak c then "-" else if rest.isEmpty || rest.head?.any isBreak then "+" else ""
    | [] => "-"
  "|" ++ hint ++ chomping ++ "\n" ++ String.ofList (literalBody indent true cs)

/-- Would a plain text be read as something that is no text? -/
def needsQuotes (s : String) : Bool :=
  isZeroPadded s.toList ||
    match resolve s with
    | .text _ => false
    | _ => true

/-- A text as a node that stands `indent` columns deep; a literal block ends its own
    last line. -/
def textNode (indent : Nat) (s : String) : String :=
  let cs := s.toList
  let f := features cs
  if cs.contains '\n' then
    if f.block then literal indent cs else doubleQuoted cs
  else if !needsQuotes s && f.plain then s
  else if f.single then singleQuoted indent cs
  else doubleQuoted cs

/-- A text as a key on one line. -/
def simpleKey (s : String) : String :=
  let cs := s.toList
  let f := features cs
  if f.multiline then doubleQuoted cs
  else if !needsQuotes s && f.plain then s
  else if f.single then singleQuoted 0 cs
  else doubleQuoted cs

/-- May a key stand in front of its colon on one line? -/
def isSimpleKey (s : String) : Bool := !(features s.toList).multiline && s.utf8ByteSize ≤ 128

def number : Number → String
  | .int n => toString n
  | .real x => numerals.render x

/-! ### Trees -/

/-- Ends the line, unless the text did so with a break of its own. -/
def endLine (s : String) : String := if s.toList.getLast?.any isBreak then s else s ++ "\n"

/-- Lines at a column; the first one goes without its margin. -/
def aligned (column : Nat) : List String → String
  | [] => ""
  | line :: rest => line ++ String.join (rest.map (margin column ++ ·))

mutual

/-- What follows the `:` of a simple key in column `column`: a blank and a scalar, or
    a line break and a collection. -/
def afterKey (column : Nat) : Value → String
  | .null => " null\n"
  | .bool b => if b then " true\n" else " false\n"
  | .number n => " " ++ number n ++ "\n"
  | .text s => " " ++ endLine (textNode (column + 2) s)
  | .list [] => " []\n"
  | .map [] => " \x7b\x7d\n"
  | .list items => "\n" ++ margin column ++ aligned column (itemLines column items)
  | .map entries =>
    "\n" ++ margin (column + 2) ++ aligned (column + 2) (entryLines (column + 2) entries)

/-- What follows a mark (`-`, or the `:` of a marked key) in column `column`. -/
def afterMark (column : Nat) : Value → String
  | .null => " null\n"
  | .bool b => if b then " true\n" else " false\n"
  | .number n => " " ++ number n ++ "\n"
  | .text s => " " ++ endLine (textNode (column + 2) s)
  | .list [] => " []\n"
  | .map [] => " \x7b\x7d\n"
  | .list items => " " ++ aligned (column + 2) (itemLines (column + 2) items)
  | .map entries => " " ++ aligned (column + 2) (entryLines (column + 2) entries)

/-- The items of a list whose marks stand in column `column`. -/
def itemLines (column : Nat) : List Value → List String
  | [] => []
  | v :: rest => ("-" ++ afterMark column v) :: itemLines column rest

/-- The entries of a map whose keys stand in column `column`. -/
def entryLines (column : Nat) : List (String × Value) → List String
  | [] => []
  | (k, v) :: rest =>
    (if isSimpleKey k then simpleKey k ++ ":" ++ afterKey column v
     else
      "? " ++ endLine (textNode (column + 2) k) ++ margin column ++ ":" ++ afterMark column v)
      :: entryLines column rest

end

def write : Value → String
  | .null => "null\n"
  | .bool b => if b then "true\n" else "false\n"
  | .number n => number n ++ "\n"
  | .text s => endLine (textNode 2 s)
  | .list [] => "[]\n"
  | .map [] => "\x7b\x7d\n"
  | .list items => aligned 0 (itemLines 0 items)
  | .map entries => aligned 0 (entryLines 0 entries)

end HornPlan.Yaml
