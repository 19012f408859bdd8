/-
  HornPlan/Yaml/Cursor.lean
  =========================
  **Places in a YAML text, and the classes of characters.**

  A cursor is the text still to be read together with its place: the number of
  octets before it, its line and its column, which counts characters.  Five line
  breaks are known: line feed, carriage return (alone or before a line feed), next
  line, and the two Unicode separators.  The first three read as a line feed inside
  a scalar.
-/

namespace HornPlan.Yaml

/-! ### Classes of characters -/

def isBreak (c : Char) : Bool :=
  c = '\n' || c = '\r' || c = '\u0085' || c = '\u2028' || c = '\u2029'

/-- A blank within a line. -/
def isSpace (c : Char) : Bool := c = ' ' || c = '\t'

/-- A character of a name: of an anchor, a directive or a tag handle. -/
def isWord (c : Char) : Bool := c.isAlphanum || c = '_' || c = '-'

/-- A character that may stand in a text at all. -/
def isAllowed (c : Char) : Bool :=
  let n := c.toNat
  n = 0x09 || n = 0x0A || n = 0x0D || (0x20 ≤ n && n ≤ 0x7E) || n = 0x85
    || (0xA0 ≤ n && n ≤ 0xD7FF) || (0xE000 ≤ n && n ≤ 0xFFFD) || 0x10000 ≤ n

/-- Does a text start with a break, or is it at its end? -/
def atBreakOrEnd : List Char → Bool
  | [] => true
  | c :: _ => isBreak c

/-- Does a text start with a blank or a break, or is it at its end? -/
def atBlankOrEnd : List Char → Bool
  | [] => true
  | c :: _ => isSpace c || isBreak c

/-! ### Portions

A text is taken in portions, each when the one before it is used up.  A portion with
a character that may not stand in a text cannot be taken. -/

/-- The most octets that a portion has. -/
def portionSize : Nat := 16384

/-- As many characters of a text as have room in so many octets, and the others. -/
def portion : (room : Nat) → List Char → List Char × List Char
  | _, [] => ([], [])
  | room, c :: rest =>
    if c.utf8Size ≤ room then
      let (taken, rest) := portion (room - c.utf8Size) rest
      (c :: taken, rest)
    else ([], c :: rest)

/-- The portions of a text up to the first that cannot be taken; is that all of it? -/
def readable : (fuel : Nat) → List Char → List Char × Bool
  | 0, _ => ([], false)
  | _, [] => ([], true)
  | fuel + 1, cs =>
    let (taken, rest) := portion portionSize cs
    if taken.all isAllowed then
      let (more, whole) := readable fuel rest
      (taken ++ more, whole)
    else ([], false)

/-! ### Cursors -/

structure Cursor where
  /-- The length of the whole text, which bounds every loop over it. -/
  total : Nat
  rest : List Char
  /-- The number of octets before the rest. -/
  index : Nat
  line : Nat
  column : Nat
deriving Repr, Inhabited

namespace Cursor

def ofText (cs : List Char) : Cursor := ⟨cs.length, cs, 0, 0, 0⟩

/-- The number of octets of a text. -/
def octets (cs : List Char) : Nat := cs.foldl (fun n c => n + c.utf8Size) 0

/-- Past `n` characters of the line. -/
def skip (c : Cursor) (n : Nat) : Cursor :=
  { c with
    rest := c.rest.drop n, index := c.index + octets (c.rest.take n), column := c.column + n }

/-- Past a line break, and the text that it stands for. -/
def skipBreak (c : Cursor) : List Char × Cursor :=
  match c.rest with
  | '\r' :: '\n' :: rest => (['\n'], ⟨c.total, rest, c.index + 2, c.line + 1, 0⟩)
  | b :: rest =>
    (if b = '\u2028' || b = '\u2029' then [b] else ['\n'],
      ⟨c.total, rest, c.index + b.utf8Size, c.line + 1, 0⟩)
  | [] => ([], c)

/-- The characters of the line that satisfy `p`, and the cursor behind them. -/
def span (c : Cursor) (p : Char → Bool) : List Char × Cursor :=
  let taken := c.rest.takeWhile p
  (taken, c.skip taken.length)

/-- Past the characters of the line that satisfy `p`. -/
def skipWhile (c : Cursor) (p : Char → Bool) : Cursor := (c.span p).2

def skipComment (c : Cursor) : Cursor :=
  match c.rest with
  | '#' :: _ => c.skipWhile fun x => !isBreak x
  | _ => c

/-- Do `---` or `...` stand alone at the start of the line? -/
def atDocumentMark (c : Cursor) : Bool :=
  c.column = 0 &&
    match c.rest with
    | '-' :: '-' :: '-' :: rest => atBlankOrEnd rest
    | '.' :: '.' :: '.' :: rest => atBlankOrEnd rest
    | _ => false

end Cursor

end HornPlan.Yaml
