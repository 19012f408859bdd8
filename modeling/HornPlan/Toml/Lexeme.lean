/-
  HornPlan/Toml/Lexeme.lean
  =========================
  **The smallest parts of a TOML text.**

  Every reader takes its part from the front of a text and gives it back with what
  follows, or nothing when the text does not begin with such a part.  Line breaks
  are single characters here.
-/
import HornPlan.Decimal.Binary
import HornPlan.Toml.Item

namespace HornPlan.Toml

/-! ### Characters -/

def isBlank (c : Char) : Bool := c = ' ' || c = '\t'

/-- May the character stand in a comment or a text as it is? -/
def isPlain (c : Char) : Bool := c = '\t' || (0x20 ≤ c.toNat && c.toNat ≠ 0x7F)

/-- May the character stand in a key without quotes? -/
def isBare (c : Char) : Bool := c.isAlphanum || c = '_' || c = '-'

/-- May the character stand in a number, a date, a time or a truth value? -/
def isTokenChar (c : Char) : Bool := isBare c || c = '+' || c = '.' || c = ':'

def skipBlanks (cs : List Char) : List Char := cs.dropWhile isBlank

/-- The value of a digit in a base up to sixteen. -/
def digit? (base : Nat) (c : Char) : Option Nat :=
  let n? :=
    if c.isDigit then some (c.toNat - '0'.toNat)
    else if 'a' ≤ c ∧ c ≤ 'f' then some (c.toNat - 'a'.toNat + 10)
    else if 'A' ≤ c ∧ c ≤ 'F' then some (c.toNat - 'A'.toNat + 10)
    else none
  n?.filter (· < base)

def number? (base : Nat) (cs : List Char) : Option Nat :=
  cs.foldlM (fun n c => do return n * base + (← digit? base c)) 0

/-! ### Texts -/

/-- The character with a code point, given by its hexadecimal digits. -/
def character? (digits : List Char) : Option Char := do
  let n ← number? 16 digits
  if h : n.isValidChar then some (Char.ofNatAux n h) else none

/-- The character of an escape of one letter. -/
def escape? : Char → Option Char
  | 'b' => some '\x08'
  | 't' => some '\t'
  | 'n' => some '\n'
  | 'f' => some '\x0c'
  | 'r' => some '\r'
  | '"' => some '"'
  | '\\' => some '\\'
  | _ => none

/-- Where the reading of a text stands. -/
inductive TextState where
  | inside
  /-- Behind a backslash and blanks: the line has to end here. -/
  | lineEnding
  /-- Behind such a line: blanks and empty lines are passed over. -/
  | joining
deriving DecidableEq

/-- Puts a character before the text that is read next. -/
def consTo (c : Char) (r : Option (List Char × List Char)) : Option (List Char × List Char) :=
  r.map fun (cs, rest) => (c :: cs, rest)

/-- The rest of a text in double quotes; `long` for one in three of them. -/
def quotedRest? (long : Bool) : TextState → List Char → Option (List Char × List Char)
  | _, [] => none
  | .lineEnding, c :: rest =>
    if isBlank c then quotedRest? long .lineEnding rest
    else if c = '\n' then quotedRest? long .joining rest
    else none
  | state, c :: rest =>
    if state = .joining ∧ (isBlank c ∨ c = '\n') then quotedRest? long .joining rest
    else
      match c, rest with
      | '"', rest =>
        if !long then some ([], rest)
        else
          match rest with
          | '"' :: '"' :: '"' :: '"' :: rest => some (['"', '"'], rest)
          | '"' :: '"' :: '"' :: rest => some (['"'], rest)
          | '"' :: '"' :: rest => some ([], rest)
          | rest => consTo '"' (quotedRest? long .inside rest)
      | '\\', 'u' :: a :: b :: c :: d :: rest => do
        consTo (← character? [a, b, c, d]) (quotedRest? long .inside rest)
      | '\\', 'U' :: a :: b :: c :: d :: e :: f :: g :: h :: rest => do
        consTo (← character? [a, b, c, d, e, f, g, h]) (quotedRest? long .inside rest)
      | '\\', e :: rest =>
        match escape? e with
        | some c => consTo c (quotedRest? long .inside rest)
        | none =>
          if !long then none
          else if isBlank e then quotedRest? long .lineEnding rest
          else if e = '\n' then quotedRest? long .joining rest
          else none
      | c, rest =>
        if c ≠ '\\' ∧ (isPlain c ∨ (long ∧ c = '\n')) then
          consTo c (quotedRest? long .inside rest)
        else none

/-- The rest of a text in single quotes; `long` for one in three of them. -/
def literalRest? (long : Bool) : List Char → Option (List Char × List Char)
  | [] => none
  | '\'' :: rest =>
    if !long then some ([], rest)
    else
      match rest with
      | '\'' :: '\'' :: '\'' :: '\'' :: rest => some (['\'', '\''], rest)
      | '\'' :: '\'' :: '\'' :: rest => some (['\''], rest)
      | '\'' :: '\'' :: rest => some ([], rest)
      | rest => consTo '\'' (literalRest? long rest)
  | c :: rest =>
    if isPlain c ∨ (long ∧ c = '\n') then consTo c (literalRest? long rest) else none

/-- A line break right behind the opening quotes of a long text does not count. -/
def skipBreak : List Char → List Char
  | '\n' :: rest => rest
  | cs => cs

def text? (cs : List Char) : Option (String × List Char) :=
  let read :=
    match cs with
    | '"' :: '"' :: '"' :: rest => quotedRest? true .inside (skipBreak rest)
    | '"' :: rest => quotedRest? false .inside rest
    | '\'' :: '\'' :: '\'' :: rest => literalRest? true (skipBreak rest)
    | '\'' :: rest => literalRest? false rest
    | _ => none
  read.map fun (cs, rest) => (String.ofList cs, rest)

/-! ### Keys -/

def simpleKey? (cs : List Char) : Option (String × List Char) :=
  match cs with
  | '"' :: rest => (quotedRest? false .inside rest).map fun (cs, rest) => (String.ofList cs, rest)
  | '\'' :: rest => (literalRest? false rest).map fun (cs, rest) => (String.ofList cs, rest)
  | cs =>
    match cs.takeWhile isBare with
    | [] => none
    | bare => some (String.ofList bare, cs.dropWhile isBare)

/-- The greatest number of keys in one path, and one more than the greatest number
    of collections inside one another. -/
def nestingLimit : Nat := 80

def keyPath? : (fuel : Nat) → List Char → Option (List String × List Char)
  | 0, _ => none
  | fuel + 1, cs => do
    let (key, rest) ← simpleKey? (skipBlanks cs)
    match skipBlanks rest with
    | '.' :: rest =>
      let (path, rest) ← keyPath? fuel rest
      return (key :: path, rest)
    | rest => return ([key], rest)

def key? (cs : List Char) : Option (List String × List Char) := keyPath? (nestingLimit - 1) cs

/-! ### Numbers -/

/-- Digits, between two of which an underscore may stand, without the underscores. -/
def ungrouped? (isDigit : Char → Bool) : List Char → Option (List Char)
  | [] => none
  | [c] => if isDigit c then some [c] else none
  | c :: '_' :: rest => if isDigit c then (ungrouped? isDigit rest).map (c :: ·) else none
  | c :: rest => if isDigit c then (ungrouped? isDigit rest).map (c :: ·) else none

/-- A sign, if there is one, and the rest: is it a minus? -/
def signed : List Char → Bool × List Char
  | '-' :: rest => (true, rest)
  | '+' :: rest => (false, rest)
  | cs => (false, cs)

def decimal? (cs : List Char) : Option (List Char) :=
  match ungrouped? Char.isDigit cs with
  | some ('0' :: _ :: _) | none => none
  | some ds => some ds

/-- An integer with a sign, of 64 bits. -/
def inRange? (n : Int) : Option Int :=
  if -(twoTo 63 : Int) ≤ n ∧ n < (twoTo 63 : Int) then some n else none

/-- An integer in one of the four bases. -/
def integer? (token : List Char) : Option Int :=
  let based (base : Nat) (cs : List Char) : Option Int := do
    let ds ← ungrouped? (fun c => (digit? base c).isSome) cs
    inRange? (← number? base ds)
  match token with
  | '0' :: 'x' :: rest => based 16 rest
  | '0' :: 'o' :: rest => based 8 rest
  | '0' :: 'b' :: rest => based 2 rest
  | token => do
    let (negative, cs) := signed token
    let n ← number? 10 (← decimal? cs)
    inRange? (if negative then -(n : Int) else n)

/-- Splits a text before the first character of a kind. -/
def cut (p : Char → Bool) (cs : List Char) : List Char × List Char := cs.span (!p ·)

/-- Is the token a number with a fraction or a power of ten?  A positive one has to
    be in the finite range. -/
def isReal (token : List Char) : Bool :=
  let (negative, cs) := signed token
  let (mantissa, power) := cut (fun c => c = 'e' || c = 'E') cs
  let (whole, fraction) := cut (· = '.') mantissa
  let read : Option Bool := do
    let ws ← decimal? whole
    let fs ← match fraction with
      | [] => some []
      | _ :: fs => ungrouped? Char.isDigit fs
    let e ← match power with
      | [] => some 0
      | _ :: es => do
        let (below, es) := signed es
        let n ← number? 10 (← ungrouped? Char.isDigit es)
        some (if below then -(n : Int) else n)
    let digits ← number? 10 (ws ++ fs)
    return (!fraction.isEmpty || !power.isEmpty) &&
      (negative || (Binary.ofDecimal false digits (e - fs.length)).isSome)
  cs = "inf".toList || cs = "nan".toList || read.getD false

/-! ### Dates and times -/

/-- A number of a fixed count of digits within bounds. -/
def bounded (low high : Nat) (digits : List Char) : Bool :=
  match number? 10 digits with
  | some n => low ≤ n && n ≤ high
  | none => false

def daysIn (year month : Nat) : Nat :=
  if month = 2 then
    if year % 4 = 0 ∧ (year % 100 ≠ 0 ∨ year % 400 = 0) then 29 else 28
  else if month ∈ [4, 6, 9, 11] then 30
  else 31

/-- The text behind a date. -/
def afterDate? (cs : List Char) : Option (List Char) :=
  match cs with
  | a :: b :: c :: d :: '-' :: m :: n :: '-' :: p :: q :: rest => do
    let year ← number? 10 [a, b, c, d]
    let month ← number? 10 [m, n]
    if bounded 1 12 [m, n] && bounded 1 (daysIn year month) [p, q] then some rest else none
  | _ => none

/-- The text behind a time of day. -/
def afterTime? (cs : List Char) : Option (List Char) :=
  match cs with
  | a :: b :: ':' :: m :: n :: ':' :: s :: t :: rest =>
    if bounded 0 23 [a, b] && bounded 0 59 [m, n] && bounded 0 60 [s, t] then
      match rest with
      | '.' :: f :: rest => if f.isDigit then some (rest.dropWhile Char.isDigit) else none
      | '.' :: [] => none
      | rest => some rest
    else none
  | _ => none

/-- Is this the distance to universal time, or nothing? -/
def isOffset (cs : List Char) : Bool :=
  match cs with
  | [] | ['Z'] | ['z'] => true
  | [sign, a, b, ':', m, n] =>
    (sign = '+' || sign = '-') && bounded 0 23 [a, b] && bounded 0 59 [m, n]
  | _ => false

/-- Is this a time of day that may follow a date? -/
def isTimeOfDate (cs : List Char) : Bool :=
  match afterTime? cs with
  | some rest => isOffset rest
  | none => false

/-- A date, a time, or both; they may stand one blank apart.  `token` is what the
    text begins with. -/
def moment? (token rest : List Char) : Option (String × List Char) :=
  match afterDate? token with
  | some [] =>
    match rest with
    | ' ' :: more =>
      let time := more.takeWhile isTokenChar
      if isTimeOfDate time then
        some (String.ofList (token ++ ' ' :: time), more.dropWhile isTokenChar)
      else some (String.ofList token, rest)
    | _ => some (String.ofList token, rest)
  | some (c :: time) =>
    if (c = 'T' ∨ c = 't') ∧ isTimeOfDate time then some (String.ofList token, rest) else none
  | none => if afterTime? token = some [] then some (String.ofList token, rest) else none

/-! ### Simple values -/

/-- A value that is written without quotes or brackets. -/
def token? (cs : List Char) : Option (Item × List Char) :=
  let token := cs.takeWhile isTokenChar
  let rest := cs.dropWhile isTokenChar
  if token = "true".toList then some (.truth true, rest)
  else if token = "false".toList then some (.truth false, rest)
  else
    match moment? token rest with
    | some (literal, rest) => some (.moment literal, rest)
    | none =>
      match integer? token with
      | some n => some (.integer n, rest)
      | none => if isReal token then some (.real (String.ofList token), rest) else none

end HornPlan.Toml
