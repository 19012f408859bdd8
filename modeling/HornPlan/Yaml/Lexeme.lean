/-
  HornPlan/Yaml/Lexeme.lean
  =========================
  **Scalars, names, tags and directives at a cursor.**

  Each function reads one lexeme and returns it with the cursor behind it, or
  nothing when the text breaks the grammar there.  None of them needs to know
  more of its surroundings than the indentation and whether it is inside brackets.

  Line breaks inside plain, quoted and folded scalars are folded: one break reads
  as a space, and further breaks are kept.
-/
import HornPlan.Yaml.Cursor
import HornPlan.Yaml.Token

namespace HornPlan.Yaml

/-- The text of a break and the breaks behind it, folded. -/
def folded (first : List Char) (more : List Char) : List Char :=
  if first = ['\n'] then (if more.isEmpty then [' '] else more) else first ++ more

/-! ### Blanks and breaks between words -/

/-- What stands between two words of a scalar: blanks of one line, or a first
    break with further breaks. -/
inductive Gap where
  | blanks (cs : List Char)
  | breaks (first more : List Char)
deriving Repr

def Gap.text : Gap → List Char
  | .blanks cs => cs
  | .breaks first more => folded first more

def Gap.isBreak : Gap → Bool
  | .blanks _ => false
  | .breaks _ _ => true

/-- Reads blanks and breaks.  Behind a break a tab in the indentation is refused
    when `indent` says how wide the indentation has to be. -/
def gap? (indent : Option Int) : (fuel : Nat) → Gap → Cursor → Option (Gap × Cursor)
  | 0, g, c => some (g, c)
  | fuel + 1, g, c =>
    match c.rest with
    | [] => some (g, c)
    | x :: _ =>
      if isSpace x then
        match g with
        | .blanks cs => gap? indent fuel (.blanks (cs ++ [x])) (c.skip 1)
        | .breaks _ _ =>
          match indent with
          | some i =>
            if x = '\t' && (c.column : Int) < i then none else gap? indent fuel g (c.skip 1)
          | none => gap? indent fuel g (c.skip 1)
      else if isBreak x then
        let (b, c) := c.skipBreak
        match g with
        | .blanks _ => gap? indent fuel (.breaks b []) c
        | .breaks first more => gap? indent fuel (.breaks first (more ++ b)) c
      else some (g, c)

/-! ### Plain scalars -/

/-- Inside brackets, a colon before one of these is refused. -/
def afterColon (c : Char) : Bool := c ∈ [',', '?', '[', ']', '\x7b', '\x7d']

/-- Inside brackets, one of these ends a plain scalar. -/
def endsPlain (c : Char) : Bool := c ∈ [',', '[', ']', '\x7b', '\x7d']

/-- The characters of a plain scalar up to the next blank, break or end.  The flag
    says that the scalar ends here. -/
def plainWord? (flow : Bool) : List Char → Option (List Char × Bool)
  | [] => some ([], true)
  | c :: rest =>
    if isSpace c || isBreak c then some ([], false)
    else if flow && c = ':' && rest.head?.any afterColon then none
    else if (c = ':' && atBlankOrEnd rest) || (flow && endsPlain c) then some ([], true)
    else (plainWord? flow rest).map fun (w, stop) => (c :: w, stop)

/-- A plain scalar: words and the gaps between them.  The flag of the result says
    whether a line break follows the last word. -/
def plain? (flow : Bool) (indent : Int) :
    (fuel : Nat) → (before : Gap) → Cursor → Option (List Char × Bool × Cursor)
  | 0, before, c => some ([], before.isBreak, c)
  | fuel + 1, before, c =>
    if c.atDocumentMark || c.rest.head? = some '#' then some ([], before.isBreak, c)
    else do
      let (word, stop) ← plainWord? flow c.rest
      let c := c.skip word.length
      let (text, before) :=
        if word.isEmpty then ([], before) else (before.text ++ word, Gap.blanks [])
      if stop then return (text, before.isBreak, c)
      else
        let (g, c) ← gap? (some indent) c.total before c
        if !flow && (c.column : Int) < indent then return (text, g.isBreak, c)
        else
          let (more, broke, c) ← plain? flow indent fuel g c
          return (text ++ more, broke, c)

/-! ### Quoted scalars -/

def hexDigit? (c : Char) : Option Nat := digit? 16 c

/-- The number of `n` hexadecimal digits. -/
def hexNumber? (n : Nat) (cs : List Char) : Option Nat :=
  let ds := cs.take n
  if ds.length = n then ds.foldlM (fun v c => (hexDigit? c).map (v * 16 + ·)) 0 else none

/-- An escape behind a backslash: what it stands for and how many characters it
    takes. -/
def escape? : List Char → Option (Char × Nat)
  | '0' :: _ => some ('\x00', 1)
  | 'a' :: _ => some ('\x07', 1)
  | 'b' :: _ => some ('\x08', 1)
  | 't' :: _ => some ('\t', 1)
  | '\t' :: _ => some ('\t', 1)
  | 'n' :: _ => some ('\n', 1)
  | 'v' :: _ => some ('\x0b', 1)
  | 'f' :: _ => some ('\x0c', 1)
  | 'r' :: _ => some ('\r', 1)
  | 'e' :: _ => some ('\x1b', 1)
  | ' ' :: _ => some (' ', 1)
  | '"' :: _ => some ('"', 1)
  | '/' :: _ => some ('/', 1)
  | '\\' :: _ => some ('\\', 1)
  | 'N' :: _ => some ('\u0085', 1)
  | '_' :: _ => some ('\u00a0', 1)
  | 'L' :: _ => some ('\u2028', 1)
  | 'P' :: _ => some ('\u2029', 1)
  | 'x' :: rest => code 2 rest
  | 'u' :: rest => code 4 rest
  | 'U' :: rest => code 8 rest
  | _ => none
where
  /-- The character of a code point that is written with `n` digits. -/
  code (n : Nat) (rest : List Char) : Option (Char × Nat) :=
    (hexNumber? n rest).bind fun v => if v.isValidChar then some (Char.ofNat v, n + 1) else none

/-- The characters of a quoted scalar up to the next blank, break, closing quote or
    end.  The flag says that an escaped line break ends them. -/
def quotedWord? (single : Bool) : (fuel : Nat) → Cursor → Option (List Char × Bool × Cursor)
  | 0, c => some ([], false, c)
  | fuel + 1, c =>
    match c.rest with
    | [] => some ([], false, c)
    | x :: rest =>
      if isSpace x || isBreak x then some ([], false, c)
      else if single && x = '\'' then
        match rest with
        | '\'' :: _ => more ['\''] (quotedWord? single fuel (c.skip 2))
        | _ => some ([], false, c)
      else if !single && x = '"' then some ([], false, c)
      else if !single && x = '\\' then
        match rest with
        | y :: _ =>
          if isBreak y then some ([], true, (c.skip 1).skipBreak.2)
          else
            match escape? rest with
            | some (e, n) => more [e] (quotedWord? single fuel (c.skip (n + 1)))
            | none => none
        | [] => none
      else more [x] (quotedWord? single fuel (c.skip 1))
where
  /-- Characters in front of what follows. -/
  more (cs : List Char) (r : Option (List Char × Bool × Cursor)) :
      Option (List Char × Bool × Cursor) :=
    r.map fun (w, escaped, c) => (cs ++ w, escaped, c)

/-- The rest of a quoted scalar, through its closing quote. -/
def quoted? (single : Bool) : (fuel : Nat) → Cursor → Option (List Char × Cursor)
  | 0, _ => none
  | fuel + 1, c =>
    if c.atDocumentMark || c.rest.isEmpty then none
    else do
      let (word, escaped, c) ← quotedWord? single c.total c
      if c.rest.head? = some (if single then '\'' else '"') then return (word, c.skip 1)
      else
        let (g, c) ← gap? none c.total (if escaped then .breaks [] [] else .blanks []) c
        let (more, c) ← quoted? single fuel c
        return (word ++ g.text ++ more, c)

/-! ### Block scalars -/

/-- What happens to the breaks at the end of a block scalar. -/
inductive Chomping where
  | strip
  | clip
  | keep
deriving DecidableEq, Repr

def chomping? : Char → Option Chomping
  | '+' => some .keep
  | '-' => some .strip
  | _ => none

/-- The header behind the indicator: chomping and indentation in either order. -/
def header? (c : Cursor) : Option (Chomping × Nat × Cursor) :=
  let width? (c : Cursor) : Option (Nat × Cursor) :=
    match c.rest with
    | x :: _ =>
      if x = '0' then none
      else if x.isDigit then some (x.toNat - '0'.toNat, c.skip 1)
      else some (0, c)
    | [] => some (0, c)
  match c.rest.head?.bind chomping? with
  | some ch => (width? (c.skip 1)).map fun (w, c) => (ch, w, c)
  | none => do
    let (w, c) ← width? c
    match (if w = 0 then none else c.rest.head?.bind chomping?) with
    | some ch => return (ch, w, c.skip 1)
    | none => return (.clip, w, c)

/-- The end of a line: blanks, a comment, and the break. -/
def lineEnd? (c : Cursor) : Option Cursor :=
  let c := (c.skipWhile isSpace).skipComment
  if atBreakOrEnd c.rest then some c.skipBreak.2 else none

/-- Indentation and empty lines in front of a line of content.  `indent` is zero
    while it is not known; the widest indentation seen is returned. -/
def blockBreaks? (indent : Nat) :
    (fuel : Nat) → (widest : Nat) → Cursor → Option (List Char × Nat × Cursor)
  | 0, widest, c => some ([], widest, c)
  | fuel + 1, widest, c =>
    let margin := (c.rest.takeWhile (· = ' ')).length
    let c := c.skip (if indent = 0 then margin else min margin (indent - c.column))
    let widest := max widest c.column
    if (indent = 0 || c.column < indent) && c.rest.head? = some '\t' then none
    else
      match c.rest with
      | x :: _ =>
        if isBreak x then
          let (b, c) := c.skipBreak
          (blockBreaks? indent fuel widest c).map fun (bs, w, c) => (b ++ bs, w, c)
        else some ([], widest, c)
      | [] => some ([], widest, c)

/-- The lines of a block scalar.  `leading` is the break of the line before and
    `breaks` the breaks behind it; `blank` says that the line before started with a
    blank.  The last two parts of the result are those of the last line. -/
def blockLines? (literal : Bool) (indent : Nat) :
    (fuel : Nat) → (leading breaks : List Char) → (blank : Bool) → Cursor →
      Option (List Char × List Char × List Char × Cursor)
  | 0, leading, breaks, _, c => some ([], leading, breaks, c)
  | fuel + 1, leading, breaks, blank, c =>
    if c.column ≠ indent || c.rest.isEmpty then some ([], leading, breaks, c)
    else
      let startsBlank := c.rest.head?.any isSpace
      let joint :=
        if !literal && leading = ['\n'] && !blank && !startsBlank then
          (if breaks.isEmpty then [' '] else []) ++ breaks
        else leading ++ breaks
      let (line, c) := c.span fun x => !isBreak x
      let (leading, c) := c.skipBreak
      match blockBreaks? indent (c.total + 1) 0 c with
      | none => none
      | some (breaks, _, c) =>
        (blockLines? literal indent fuel leading breaks startsBlank c).map
          fun (text, leading, breaks, c) => (joint ++ line ++ text, leading, breaks, c)

/-- A block scalar behind its indicator; `parent` is the indentation around it. -/
def block? (literal : Bool) (parent : Int) (c : Cursor) : Option (List Char × Cursor) := do
  let (chomping, width, c) ← header? c
  let c ← lineEnd? c
  let known : Nat := if width = 0 then 0 else (max parent 0).toNat + width
  let (breaks, widest, c) ← blockBreaks? known (c.total + 1) 0 c
  let indent : Nat := if known = 0 then max widest (max (parent + 1).toNat 1) else known
  let (text, leading, breaks, c) ← blockLines? literal indent (c.total + 1) [] breaks false c
  let tail :=
    match chomping with
    | .strip => []
    | .clip => leading
    | .keep => leading ++ breaks
  return (text ++ tail, c)

/-! ### Anchors and aliases -/

/-- The name behind `&` or `*`. -/
def anchorName? (c : Cursor) : Option (String × Cursor) :=
  let (name, c) := c.span isWord
  let ends : Bool :=
    match c.rest with
    | [] => true
    | x :: _ => isSpace x || isBreak x || x ∈ ['?', ':', ',', ']', '\x7d', '%', '@', '\x60']
  if name.isEmpty || !ends then none else some (String.ofList name, c)

/-! ### Tags -/

/-- A character of a tag; commas and square brackets only in a verbatim one. -/
def isTagChar (verbatim : Bool) (c : Char) : Bool :=
  isWord c
    || c ∈ [';', '/', '?', ':', '@', '&', '=', '+', '$', '.', '%', '!', '~', '*', '\'', '(', ')']
    || (verbatim && c ∈ [',', '[', ']'])

/-- The octet behind a `%`. -/
def octet? : List Char → Option (UInt8 × List Char)
  | '%' :: a :: b :: rest =>
    match hexDigit? a, hexDigit? b with
    | some a, some b => some (UInt8.ofNat (a * 16 + b), rest)
    | _, _ => none
  | _ => none

/-- How many octets a character takes, by its first one. -/
def octetCount? (b : UInt8) : Option Nat :=
  if b &&& 0x80 = 0 then some 1
  else if b &&& 0xE0 = 0xC0 then some 2
  else if b &&& 0xF0 = 0xE0 then some 3
  else if b &&& 0xF8 = 0xF0 then some 4
  else none

/-- `n` further octets of a character. -/
def octets? : Nat → List Char → Option (List UInt8 × List Char)
  | 0, cs => some ([], cs)
  | n + 1, cs => do
    let (b, cs) ← octet? cs
    if b &&& 0xC0 ≠ 0x80 then none
    else
      let (bs, cs) ← octets? n cs
      return (b :: bs, cs)

/-- A group of octets written with `%`: the character that it spells, if it does, and
    how many characters are taken up. -/
def percent? (cs : List Char) : Option (Option Char × Nat) := do
  let (b, rest) ← octet? cs
  let n ← octetCount? b
  let (bs, _) ← octets? (n - 1) rest
  let spelled := String.fromUTF8? (ByteArray.mk (b :: bs).toArray)
  return (spelled.bind fun s => s.toList.head?, 3 * n)

/-- What is written as a tag, or as a part of one. -/
def tagText? (verbatim : Bool) : (fuel : Nat) → Cursor → Option (List (Option Char) × Cursor)
  | 0, c => some ([], c)
  | fuel + 1, c =>
    match c.rest with
    | [] => some ([], c)
    | x :: _ =>
      if !isTagChar verbatim x then some ([], c)
      else if x = '%' then do
        let (spelled, n) ← percent? c.rest
        let (more, c) ← tagText? verbatim fuel (c.skip n)
        return (spelled :: more, c)
      else do
        let (more, c) ← tagText? verbatim fuel (c.skip 1)
        return (some x :: more, c)

/-- A tag handle: `!`, word characters, and perhaps a second `!`. -/
def handle? (c : Cursor) : Option (List Char × Cursor) :=
  match c.rest with
  | '!' :: _ =>
    let (word, c) := (c.skip 1).span isWord
    match c.rest with
    | '!' :: _ => some ('!' :: word ++ ['!'], c.skip 1)
    | _ => some ('!' :: word, c)
  | _ => none

/-- A tag as it is written: handle and suffix. -/
def writtenTag? (c : Cursor) : Option (String × Tag × Cursor) :=
  match c.rest with
  | '!' :: '<' :: _ => do
    let (t, c) ← tagText? true c.total (c.skip 2)
    if t.isEmpty || c.rest.head? ≠ some '>' then none
    else return ("", Tag.ofWritten t, c.skip 1)
  | _ => do
    let (h, c) ← handle? c
    let (t, c) ← tagText? false c.total c
    if h.length > 1 && h.getLast? = some '!' then
      if t.isEmpty then none else return (String.ofList h, Tag.ofWritten t, c)
    else
      let suffix := Tag.ofWritten ((h.drop 1).map some ++ t)
      if suffix.text.isEmpty then return ("", Tag.bare, c) else return ("!", suffix, c)

/-- A tag, which a blank, a break or (inside brackets) a comma ends. -/
def tag? (flow : Bool) (c : Cursor) : Option (String × Tag × Cursor) := do
  let (h, s, c) ← writtenTag? c
  if (flow && c.rest.head? = some ',') || atBlankOrEnd c.rest then return (h, s, c) else none

/-! ### Directives -/

def versionNumber? (c : Cursor) : Option (Nat × Cursor) :=
  let (ds, c) := c.span Char.isDigit
  if ds.isEmpty || ds.length > 9 then none
  else (natural? 10 1000000000 ds).map fun n => (n, c)

/-- A directive behind its `%`, through the end of the line. -/
def directive? (c : Cursor) : Option (Token × Cursor) := do
  let (name, c) := c.span isWord
  if name.isEmpty || !atBlankOrEnd c.rest then none
  else if name = "YAML".toList then
    let (major, c) ← versionNumber? (c.skipWhile isSpace)
    if c.rest.head? ≠ some '.' then none
    else
      let (minor, c) ← versionNumber? (c.skip 1)
      return (.versionDirective major minor, ← lineEnd? c)
  else if name = "TAG".toList then
    let (h, c) ← handle? (c.skipWhile isSpace)
    if !(h = ['!'] || (h.length > 1 && h.getLast? = some '!')) then none
    else if !c.rest.head?.any isSpace then none
    else
      let c := c.skipWhile isSpace
      let (t, c) ← tagText? true c.total c
      if t.isEmpty || !atBlankOrEnd c.rest then none
      else return (.tagDirective (String.ofList h) (Tag.ofWritten t), ← lineEnd? c)
  else none

end HornPlan.Yaml
