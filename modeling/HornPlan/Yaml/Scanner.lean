/-
  HornPlan/Yaml/Scanner.lean
  ==========================
  **Cutting a YAML text into tokens.**

  Indentation is turned into block tokens with a stack of columns.  A mapping key
  without `?` is recognised only when its `:` is met; until then the place where it
  began is remembered, and the `key` token (with the start of a block mapping, if
  one begins there) is put in afterwards.  Such a place lapses at the end of its
  line or after 1024 octets; where the indentation demands a key that is an error.

  Tokens wait in a queue while the one in front may still turn out to be a key.
  `tokens` delivers them one by one, so a text that breaks the rules yields the
  tokens that were certain before the breakage.
-/
import HornPlan.Yaml.Lexeme

namespace HornPlan.Yaml

/-- A place where a key may have begun. -/
structure KeyPlace where
  required : Bool
  /-- The number of the token that stands there. -/
  number : Nat
  index : Nat
  line : Nat
  column : Nat
deriving Repr, Inhabited

structure Scanner where
  cursor : Cursor
  /-- Does the text end with the cursor's?  Otherwise it goes on, but cannot be read. -/
  whole : Bool
  /-- How many brackets are open. -/
  flow : Nat
  indent : Int
  /-- The indentations around, innermost first. -/
  indents : List Int
  /-- May a key begin here? -/
  keyAllowed : Bool
  /-- The last place where a key may have begun, on each level of brackets,
      innermost first. -/
  places : List (Option KeyPlace)
  queue : List Token
  /-- How many tokens were delivered. -/
  delivered : Nat
  started : Bool
  ended : Bool
deriving Repr, Inhabited

namespace Scanner

def ofText (cs : List Char) (whole : Bool) : Scanner :=
  { cursor := Cursor.ofText cs, whole, flow := 0, indent := -1, indents := []
    keyAllowed := true, places := [none], queue := [], delivered := 0, started := false
    ended := false }

def push (s : Scanner) (t : Token) : Scanner := { s with queue := s.queue ++ [t] }

/-- Puts a token in front of the token with the given number. -/
def insertAt (s : Scanner) (number : Nat) (t : Token) : Scanner :=
  let at_ := number - s.delivered
  { s with queue := s.queue.take at_ ++ t :: s.queue.drop at_ }

/-- Past `n` characters. -/
def skip (s : Scanner) (n : Nat) : Scanner := { s with cursor := s.cursor.skip n }

def allowKey (s : Scanner) (b : Bool) : Scanner := { s with keyAllowed := b }

/-! ### Places of keys -/

/-- Has the place lapsed? -/
def lapsed (c : Cursor) (p : KeyPlace) : Bool := p.line < c.line || p.index + 1024 < c.index

def dropLapsed (s : Scanner) : Option Scanner :=
  if s.places.any fun p => p.any fun p => lapsed s.cursor p && p.required then none
  else some { s with places := s.places.map fun p => p.filter fun p => !lapsed s.cursor p }

def dropPlace (s : Scanner) : Option Scanner :=
  match s.places with
  | some p :: rest => if p.required then none else some { s with places := none :: rest }
  | _ => some s

/-- Remembers the place of the next token if a key may begin here. -/
def savePlace (s : Scanner) : Option Scanner :=
  if !s.keyAllowed then some s
  else do
    let c := s.cursor
    let place : KeyPlace :=
      { required := s.flow = 0 && s.indent = c.column
        number := s.delivered + s.queue.length
        index := c.index, line := c.line, column := c.column }
    let s ← s.dropPlace
    return { s with places := some place :: s.places.tail }

/-! ### Indentation -/

/-- Begins a block at a column that lies deeper than the indentation. -/
def roll (s : Scanner) (column : Nat) (number : Option Nat) (t : Token) : Scanner :=
  if s.flow = 0 && s.indent < column then
    let s := { s with indents := s.indent :: s.indents, indent := column }
    match number with
    | some n => s.insertAt n t
    | none => s.push t
  else s

/-- Ends the blocks whose indentation is deeper than a column. -/
def unroll (column : Int) : List Int → Scanner → Scanner
  | [], s => s
  | i :: rest, s =>
    if s.flow = 0 && column < s.indent then
      unroll column rest { s.push .blockEnd with indent := i, indents := rest }
    else s

def unrollTo (s : Scanner) (column : Int) : Scanner := unroll column s.indents s

/-! ### One token -/

def skipToToken : (fuel : Nat) → Scanner → Scanner
  | 0, s => s
  | fuel + 1, s =>
    let c := s.cursor
    let c := if c.column = 0 && c.rest.head? = some '\ufeff' then c.skip 1 else c
    let tabs := s.flow ≠ 0 || !s.keyAllowed
    let c := (c.skipWhile fun x => x = ' ' || (tabs && x = '\t')).skipComment
    match c.rest with
    | x :: _ =>
      if isBreak x then
        skipToToken fuel
          { s with cursor := c.skipBreak.2, keyAllowed := s.keyAllowed || s.flow = 0 }
      else { s with cursor := c }
    | [] => { s with cursor := c }

def indicator (s : Scanner) (n : Nat) (t : Token) : Scanner := (s.skip n).push t

/-- The end of the text, which also ends its last line. -/
def streamEnd (s : Scanner) : Option Scanner := do
  let c := s.cursor
  let c := if c.column = 0 then c else { c with line := c.line + 1, column := 0 }
  let s ← ({ s with cursor := c }.unrollTo (-1)).dropPlace
  return { (s.allowKey false).push .streamEnd with ended := true }

def documentMark (s : Scanner) (t : Token) : Option Scanner := do
  let s ← (s.unrollTo (-1)).dropPlace
  return (s.allowKey false).indicator 3 t

def directive (s : Scanner) : Option Scanner := do
  let s ← (s.unrollTo (-1)).dropPlace
  let (t, c) ← directive? (s.cursor.skip 1)
  return { (s.allowKey false).push t with cursor := c }

def openBracket (s : Scanner) (t : Token) : Option Scanner := do
  let s ← s.savePlace
  let s := { s with flow := s.flow + 1, places := none :: s.places }
  return (s.allowKey true).indicator 1 t

def closeBracket (s : Scanner) (t : Token) : Option Scanner := do
  let s ← s.dropPlace
  let s := if s.flow = 0 then s else { s with flow := s.flow - 1, places := s.places.tail }
  return (s.allowKey false).indicator 1 t

def flowEntry (s : Scanner) : Option Scanner := do
  let s ← s.dropPlace
  return (s.allowKey true).indicator 1 .flowEntry

def blockEntry (s : Scanner) : Option Scanner := do
  if s.flow = 0 && !s.keyAllowed then none
  else
    let s ← (s.roll s.cursor.column none .blockSequenceStart).dropPlace
    return (s.allowKey true).indicator 1 .blockEntry

def key (s : Scanner) : Option Scanner := do
  if s.flow = 0 && !s.keyAllowed then none
  else
    let s ← (s.roll s.cursor.column none .blockMappingStart).dropPlace
    return (s.allowKey (s.flow = 0)).indicator 1 .key

def value (s : Scanner) : Option Scanner :=
  match s.places with
  | some p :: rest =>
    let s := (s.insertAt p.number .key).roll p.column (some p.number) .blockMappingStart
    some (({ s with places := none :: rest }.allowKey false).indicator 1 .value)
  | _ =>
    if s.flow = 0 && !s.keyAllowed then none
    else
      let s := s.roll s.cursor.column none .blockMappingStart
      some ((s.allowKey (s.flow = 0)).indicator 1 .value)

def anchor (s : Scanner) (t : String → Token) : Option Scanner := do
  let s ← s.savePlace
  let (name, c) ← anchorName? (s.cursor.skip 1)
  return { (s.allowKey false).push (t name) with cursor := c }

def tag (s : Scanner) : Option Scanner := do
  let s ← s.savePlace
  let (h, suffix, c) ← tag? (s.flow ≠ 0) s.cursor
  return { (s.allowKey false).push (.tag h suffix) with cursor := c }

def blockScalar (s : Scanner) (literal : Bool) : Option Scanner := do
  let s ← s.dropPlace
  let (text, c) ← block? literal s.indent (s.cursor.skip 1)
  let style := if literal then Style.literal else Style.folded
  return { (s.allowKey true).push (.scalar (String.ofList text) style) with cursor := c }

def quotedScalar (s : Scanner) (single : Bool) : Option Scanner := do
  let s ← s.savePlace
  let c := s.cursor.skip 1
  let (text, c) ← quoted? single (c.total + 1) c
  let style := if single then Style.singleQuoted else Style.doubleQuoted
  return { (s.allowKey false).push (.scalar (String.ofList text) style) with cursor := c }

def plainScalar (s : Scanner) : Option Scanner := do
  let s ← s.savePlace
  let c := s.cursor
  let (text, broke, c) ← plain? (s.flow ≠ 0) (s.indent + 1) (c.total + 1) (.blanks []) c
  return { (s.allowKey broke).push (.scalar (String.ofList text) .plain) with cursor := c }

def isIndicator (c : Char) : Bool :=
  c ∈ ['-', '?', ':', ',', '[', ']', '\x7b', '\x7d', '#', '&', '*', '!', '|', '>', '\'', '"',
    '%', '@', '\x60']

def startsPlain (flow : Bool) : List Char → Bool
  | [] => false
  | c :: rest =>
    !(isSpace c || isBreak c || isIndicator c)
      || (c = '-' && !rest.head?.any isSpace)
      || (!flow && (c = '?' || c = ':') && !atBlankOrEnd rest)

/-- Reads the token at the cursor, which is past blanks and comments. -/
def tokenHere (s : Scanner) : Option Scanner :=
  let c := s.cursor
  let flow : Bool := s.flow ≠ 0
  match c.rest with
  | [] => s.streamEnd
  | x :: rest =>
    if c.column = 0 && x = '%' then s.directive
    else if c.atDocumentMark then s.documentMark (if x = '-' then .documentStart else .documentEnd)
    else if x = '[' then s.openBracket .flowSequenceStart
    else if x = '\x7b' then s.openBracket .flowMappingStart
    else if x = ']' then s.closeBracket .flowSequenceEnd
    else if x = '\x7d' then s.closeBracket .flowMappingEnd
    else if x = ',' then s.flowEntry
    else if x = '-' && atBlankOrEnd rest then s.blockEntry
    else if x = '?' && (flow || atBlankOrEnd rest) then s.key
    else if x = ':' && (flow || atBlankOrEnd rest) then s.value
    else if x = '*' then s.anchor .link
    else if x = '&' then s.anchor .anchor
    else if x = '!' then s.tag
    else if x = '|' && !flow then s.blockScalar true
    else if x = '>' && !flow then s.blockScalar false
    else if x = '\'' then s.quotedScalar true
    else if x = '"' then s.quotedScalar false
    else if startsPlain flow c.rest then s.plainScalar
    else none

/-- Fails unless so many characters can be looked at, or the text ends before. -/
def lookAhead (s : Scanner) (n : Nat) : Option Unit :=
  if s.whole || n ≤ (s.cursor.rest.take n).length then some () else none

/-- Adds the next tokens of the text to the queue. -/
def fetch (s : Scanner) : Option Scanner :=
  if !s.started then some { s.push .streamStart with started := true }
  else do
    let s := skipToToken (s.cursor.total + 1) s
    s.lookAhead 4
    let s ← s.dropLapsed
    let s ← (s.unrollTo s.cursor.column).tokenHere
    s.lookAhead 1
    return s

/-! ### Delivery -/

/-- May the token in front still turn out to be a key? -/
def frontIsOpen (s : Scanner) : Bool :=
  s.queue.isEmpty || s.places.any fun p => p.any fun p => p.number = s.delivered

/-- Reads on until the token in front is certain. -/
def settle : (fuel : Nat) → Scanner → Option Scanner
  | 0, _ => none
  | fuel + 1, s => do
    let s ← s.dropLapsed
    if s.frontIsOpen then settle fuel (← s.fetch) else return s

def next (s : Scanner) : Option (Token × Scanner) := do
  let s ← settle (s.cursor.total + 4) s
  match s.queue with
  | [] => none
  | t :: rest => return (t, { s with queue := rest, delivered := s.delivered + 1 })

/-- The tokens up to the end of the stream or to the breakage. -/
def deliver : (fuel : Nat) → Scanner → List Token
  | 0, _ => []
  | fuel + 1, s =>
    match s.next with
    | none => []
    | some (.streamEnd, _) => [.streamEnd]
    | some (t, s) => t :: deliver fuel s

end Scanner

/-- The tokens of a text, up to the breakage if there is one.  The list of a text that
    is sound ends with the end of the stream. -/
def tokens (text : String) : List Token :=
  let (cs, whole) := readable (text.length + 1) text.toList
  if cs.isEmpty && !whole then []
  else Scanner.deliver (4 * cs.length + 16) (Scanner.ofText cs whole)

end HornPlan.Yaml
