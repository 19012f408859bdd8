/-
  HornPlan/Toml/Reader.lean
  =========================
  **Reading TOML text.**

  A document is a list of lines that hold a header, a statement, a comment or
  nothing.  Each header says to which table the statements below it belong.
  `Toml.read` gives the tree of a text, or nothing when the text breaks the
  grammar or defines something twice.

  Specification, section D: the configuration file.
-/
import HornPlan.Toml.Lexeme

namespace HornPlan.Toml

/-! ### Values -/

/-- The text behind a comment, which ends with its line. -/
def afterComment? (cs : List Char) : Option (List Char) :=
  match cs.dropWhile isPlain with
  | [] => some []
  | '\n' :: rest => some ('\n' :: rest)
  | _ => none

/-- The text behind blanks, line breaks and comments. -/
def skipLines? : (fuel : Nat) → List Char → Option (List Char)
  | 0, _ => none
  | fuel + 1, cs =>
    match cs.dropWhile fun c => isBlank c || c = '\n' with
    | '#' :: rest => do
      match ← afterComment? rest with
      | [] => none
      | rest => skipLines? fuel rest
    | rest => some rest

mutual

/-- A value at the front of a text; `depth` collections are open. -/
def value? : (fuel : Nat) → (depth : Nat) → List Char → Option (Item × List Char)
  | 0, _, _ => none
  | fuel + 1, depth, cs =>
    match cs with
    | '"' :: _ | '\'' :: _ => (text? cs).map fun (s, rest) => (.text s, rest)
    | '[' :: rest =>
      if depth + 1 < nestingLimit then
        (elements? fuel (depth + 1) rest).map fun (items, rest) => (.array items, rest)
      else none
    | '\x7b' :: rest =>
      if depth + 1 < nestingLimit then
        match skipBlanks rest with
        | '\x7d' :: rest => some (.table .inline [], rest)
        | rest =>
          (members? fuel (depth + 1) [] rest).map fun (es, rest) => (.table .inline es, rest)
      else none
    | cs => token? cs

/-- The elements of an array up to its closing bracket. -/
def elements? : (fuel : Nat) → (depth : Nat) → List Char → Option (List Item × List Char)
  | 0, _, _ => none
  | fuel + 1, depth, cs => do
    match ← skipLines? (cs.length + 1) cs with
    | ']' :: rest => return ([], rest)
    | cs =>
      let (item, rest) ← value? fuel depth cs
      match ← skipLines? (rest.length + 1) rest with
      | ']' :: rest => return ([item], rest)
      | ',' :: rest =>
        let (items, rest) ← elements? fuel depth rest
        return (item :: items, rest)
      | _ => none

/-- The statements in braces up to the closing brace. -/
def members? : (fuel : Nat) → (depth : Nat) → Entries → List Char → Option (Entries × List Char)
  | 0, _, _, _ => none
  | fuel + 1, depth, entries, cs => do
    match ← key? cs with
    | (path, '=' :: rest) =>
      let (item, rest) ← value? fuel depth (skipBlanks rest)
      let entries ← Entries.assign path item .inline entries
      match skipBlanks rest with
      | '\x7d' :: rest => return (entries, rest)
      | ',' :: rest => members? fuel depth entries rest
      | _ => none
    | _ => none

end

/-! ### Documents -/

/-- The text behind the end of a line; only a comment may stand before it. -/
def endLine? (cs : List Char) : Option (List Char) := do
  let cs ← match skipBlanks cs with
    | '#' :: rest => afterComment? rest
    | rest => some rest
  match cs with
  | [] => return []
  | '\n' :: rest => return rest
  | _ => none

/-- A document so far, and the table that statements belong to. -/
structure Draft where
  root : Entries
  current : List String

/-- The header of one more of several tables, without its opening brackets. -/
def rowHeader? (d : Draft) (cs : List Char) : Option (Draft × List Char) := do
  match ← key? cs with
  | (path, ']' :: ']' :: rest) => return (⟨← d.root.openRow path, path⟩, ← endLine? rest)
  | _ => none

/-- The header of a table, without its opening bracket. -/
def tableHeader? (d : Draft) (cs : List Char) : Option (Draft × List Char) := do
  match ← key? cs with
  | (path, ']' :: rest) => return (⟨← d.root.openTable path, path⟩, ← endLine? rest)
  | _ => none

/-- A statement `key = value` with the end of its line. -/
def statement? (d : Draft) (cs : List Char) : Option (Draft × List Char) := do
  match ← key? cs with
  | (path, '=' :: rest) =>
    let rest := skipBlanks rest
    let (item, rest) ← value? (2 * rest.length + 2) 0 rest
    let root ← Entries.edit true (Entries.assign path item) d.current .header d.root
    return (⟨root, d.current⟩, ← endLine? rest)
  | _ => none

def lines? : (fuel : Nat) → Draft → List Char → Option Entries
  | 0, _, _ => none
  | fuel + 1, d, cs =>
    match skipBlanks cs with
    | [] => some d.root
    | '\n' :: rest => lines? fuel d rest
    | '#' :: rest => do lines? fuel d (← endLine? ('#' :: rest))
    | '[' :: '[' :: rest => do
      let (d, rest) ← rowHeader? d rest
      lines? fuel d rest
    | '[' :: rest => do
      let (d, rest) ← tableHeader? d rest
      lines? fuel d rest
    | cs => do
      let (d, rest) ← statement? d cs
      lines? fuel d rest

def unifyBreaks : List Char → List Char
  | [] => []
  | '\r' :: '\n' :: rest => '\n' :: unifyBreaks rest
  | c :: rest => c :: unifyBreaks rest

def read (text : String) : Option Entries :=
  let cs :=
    match text.toList with
    | '\ufeff' :: rest => rest
    | cs => cs
  let cs := unifyBreaks cs
  lines? (cs.length + 1) ⟨[], []⟩ cs

end HornPlan.Toml
