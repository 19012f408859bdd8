/-
  HornPlan/Json/Reader.lean
  =========================
  **Reading JSON text.**

  The reader goes through the text once and builds a `Node`.  Where the text
  breaks the grammar it stops and leaves a `fault` in that place.

  Integers within 64 bits stay integers; all other numbers become numbers with a
  fraction.  Those are read the quick way: the first digits that fit 64 bits are
  rounded to a `Binary`, which is then multiplied or divided by a power of ten
  and rounded again.  A magnitude beyond the finite range has no meaning, and
  neither has a lone half of a surrogate pair; both may be passed over.

  Specification, section E.10: documents in JSON.
-/
import HornPlan.Node.Source

namespace HornPlan.Json

def dialect : Dialect :=
  { nullName := "null", numerals := ⟨-5, 15, true⟩, positional := true, depth := 127 }

def isBlank (c : Char) : Bool := c = ' ' || c = '\n' || c = '\t' || c = '\r'

def skipBlanks (cs : List Char) : List Char := cs.dropWhile isBlank

def digitValue (c : Char) : Nat := c.toNat - '0'.toNat

/-! ### Texts -/

/-- A part of a quoted text: a character, or an escaped 16-bit unit. -/
inductive Piece where
  | char (c : Char)
  | unit (n : Nat)
deriving DecidableEq, Repr

def hexValue? (c : Char) : Option Nat :=
  if c.isDigit then some (c.toNat - '0'.toNat)
  else if 'a' ≤ c ∧ c ≤ 'f' then some (c.toNat - 'a'.toNat + 10)
  else if 'A' ≤ c ∧ c ≤ 'F' then some (c.toNat - 'A'.toNat + 10)
  else none

def unit? (a b c d : Char) : Option Nat :=
  match hexValue? a, hexValue? b, hexValue? c, hexValue? d with
  | some a, some b, some c, some d => some (((a * 16 + b) * 16 + c) * 16 + d)
  | _, _, _, _ => none

/-- The character of an escape of one letter. -/
def escape? : Char → Option Char
  | '"' => some '"'
  | '\\' => some '\\'
  | '/' => some '/'
  | 'b' => some '\x08'
  | 'f' => some '\x0c'
  | 'n' => some '\n'
  | 'r' => some '\r'
  | 't' => some '\t'
  | _ => none

/-- The pieces up to the closing quote, and the text behind it. -/
def pieces? : List Char → Option (List Piece × List Char)
  | [] => none
  | '"' :: rest => some ([], rest)
  | '\\' :: 'u' :: a :: b :: c :: d :: rest =>
    match unit? a b c d, pieces? rest with
    | some n, some (ps, rest) => some (.unit n :: ps, rest)
    | _, _ => none
  | '\\' :: e :: rest =>
    match escape? e, pieces? rest with
    | some c, some (ps, rest) => some (.char c :: ps, rest)
    | _, _ => none
  | c :: rest =>
    if c.toNat < 0x20 || c = '\\' then none
    else (pieces? rest).map fun (ps, rest) => (.char c :: ps, rest)

def isHighHalf (n : Nat) : Bool := 0xD800 ≤ n && n < 0xDC00

def isLowHalf (n : Nat) : Bool := 0xDC00 ≤ n && n < 0xE000

/-- The text of the pieces; two halves of a surrogate pair make one character. -/
def joined? : List Piece → Option (List Char)
  | [] => some []
  | .char c :: rest => (joined? rest).map (c :: ·)
  | .unit n :: rest =>
    if isLowHalf n then none
    else if isHighHalf n then
      match rest with
      | .unit m :: rest =>
        if isLowHalf m then
          (joined? rest).map (Char.ofNat (0x10000 + (n - 0xD800) * 0x400 + (m - 0xDC00)) :: ·)
        else none
      | _ => none
    else (joined? rest).map (Char.ofNat n :: ·)

def textReading (ps : List Piece) : Reading :=
  match joined? ps with
  | some cs => .text (String.ofList cs)
  | none => .unreadable

/-! ### Numbers -/

/-- Digits gathered as long as they fit 64 bits, and how many were left out. -/
def gather : Nat → List Char → Nat × Nat
  | n, [] => (n, 0)
  | n, c :: rest =>
    let m := n * 10 + digitValue c
    if m < twoTo 64 then gather m rest else (n, (c :: rest).length)

/-- `x * 10 ^ e` rounded once, twice if the power itself is out of range. -/
def timesPower (x : Binary) (e : Int) : Option Binary :=
  let power (n : Nat) : Binary := (Binary.ofDecimal false 1 n).getD (Binary.zero false)
  if x.isZero then some x
  else if 308 < e then none
  else if 0 ≤ e then x.mul (power e.toNat)
  else if -308 ≤ e then x.div (power (-e).toNat)
  else if -616 ≤ e then
    (x.div (power 308)).bind fun y =>
      if y.isZero then some y else y.div (power (-e - 308).toNat)
  else some (Binary.zero x.negative)

/-- A number with a fraction from its significand and power of ten. -/
def realReading (negative : Bool) (significand : Nat) (e : Int) : Reading :=
  match (Binary.ofRatio negative significand 1).bind (timesPower · e) with
  | some x => .real x
  | none => .unreadable

/-- The parts of a number: digits before the point, digits behind it if there is
    a point, and the power of ten if there is one. -/
structure Parts where
  whole : List Char
  fraction : Option (List Char)
  power : Option Int

def numberReading (negative : Bool) (p : Parts) : Reading :=
  let (n, left) := gather 0 p.whole
  match p.fraction, p.power, left with
  | none, none, 0 =>
    if !negative then .int n
    else if n = 0 || twoTo 63 < n then realReading true n 0
    else .int (-(n : Int))
  | _, _, _ =>
    let fraction := p.fraction.getD []
    let (m, dropped) := gather n fraction
    let e : Int := left - ((fraction.length - dropped : Nat) : Int) + p.power.getD 0
    realReading negative m e

/-- The digits at the front of a text, at least one, and what follows. -/
def digits? (cs : List Char) : Option (List Char × List Char) :=
  match cs.takeWhile Char.isDigit with
  | [] => none
  | ds => some (ds, cs.dropWhile Char.isDigit)

/-- The power of ten behind an `e`. -/
def power? (cs : List Char) : Option (Int × List Char) :=
  let (sign, cs) : Int × List Char :=
    match cs with
    | '+' :: rest => (1, rest)
    | '-' :: rest => (-1, rest)
    | cs => (1, cs)
  (digits? cs).map fun (ds, rest) =>
    (sign * ((ds.foldl (fun n c => n * 10 + digitValue c) 0 : Nat) : Int), rest)

/-- The digits before the point: a zero stands alone. -/
def whole? (cs : List Char) : Option (List Char × List Char) :=
  match cs with
  | '0' :: c :: rest => if c.isDigit then none else some (['0'], c :: rest)
  | cs => digits? cs

def fraction? (cs : List Char) : Option (Option (List Char) × List Char) :=
  match cs with
  | '.' :: rest => (digits? rest).map fun (ds, rest) => (some ds, rest)
  | cs => some (none, cs)

def powerPart? (cs : List Char) : Option (Option Int × List Char) :=
  match cs with
  | 'e' :: rest | 'E' :: rest => (power? rest).map fun (e, rest) => (some e, rest)
  | cs => some (none, cs)

/-- A number at the front of a text. -/
def number? (cs : List Char) : Option (Reading × List Char) := do
  let (negative, cs) := match cs with
    | '-' :: rest => (true, rest)
    | cs => (false, cs)
  let (whole, cs) ← whole? cs
  let (fraction, cs) ← fraction? cs
  let (power, cs) ← powerPart? cs
  return (numberReading negative ⟨whole, fraction, power⟩, cs)

/-! ### Trees -/

/-- A node at the front of a text and what follows it, or nothing to go on with. -/
abbrev Step (α : Type) := α × Option (List Char)

def leaf (r : Reading) (rest : List Char) : Step Node := (.scalar (Scalar.ofReading r), some rest)

def broken : Step Node := (.fault, none)

mutual

def value : (fuel : Nat) → List Char → Step Node
  | 0, _ => broken
  | fuel + 1, cs =>
    match skipBlanks cs with
    | '"' :: rest =>
      match pieces? rest with
      | some (ps, rest) => leaf (textReading ps) rest
      | none => broken
    | '[' :: rest =>
      let (items, rest) := elements fuel true rest
      (.sequence false items, rest)
    | '\x7b' :: rest =>
      let (entries, rest) := members fuel true rest
      (.mapping false entries, rest)
    | 'n' :: 'u' :: 'l' :: 'l' :: rest => leaf .null rest
    | 't' :: 'r' :: 'u' :: 'e' :: rest => leaf (.bool true) rest
    | 'f' :: 'a' :: 'l' :: 's' :: 'e' :: rest => leaf (.bool false) rest
    | cs =>
      match number? cs with
      | some (r, rest) => leaf r rest
      | none => broken

def elements : (fuel : Nat) → (first : Bool) → List Char → Step (List Node)
  | 0, _, _ => ([.fault], none)
  | fuel + 1, first, cs =>
    match skipBlanks cs, first with
    | ']' :: rest, _ => ([], some rest)
    | ',' :: rest, false =>
      match skipBlanks rest with
      | ']' :: _ => ([.fault], none)
      | rest => element fuel rest
    | rest, true => element fuel rest
    | _, false => ([.fault], none)

def element : (fuel : Nat) → List Char → Step (List Node)
  | 0, _ => ([.fault], none)
  | fuel + 1, cs =>
    match value fuel cs with
    | (n, none) => ([n], none)
    | (n, some rest) =>
      let (ns, rest) := elements fuel false rest
      (n :: ns, rest)

def members : (fuel : Nat) → (first : Bool) → List Char → Step (List (Node × Node))
  | 0, _, _ => ([(.fault, .fault)], none)
  | fuel + 1, first, cs =>
    match skipBlanks cs, first with
    | '\x7d' :: rest, _ => ([], some rest)
    | ',' :: rest, false => member fuel (skipBlanks rest)
    | rest, true => member fuel rest
    | _, false => ([(.fault, .fault)], none)

def member : (fuel : Nat) → List Char → Step (List (Node × Node))
  | 0, _ => ([(.fault, .fault)], none)
  | fuel + 1, cs =>
    match cs with
    | '"' :: rest =>
      match pieces? rest with
      | none => ([(.fault, .fault)], none)
      | some (ps, rest) =>
        let key := Node.scalar (Scalar.ofReading (textReading ps))
        match skipBlanks rest with
        | ':' :: rest =>
          match value fuel rest with
          | (n, none) => ([(key, n)], none)
          | (n, some rest) =>
            let (es, rest) := members fuel false rest
            ((key, n) :: es, rest)
        | _ => ([(key, .fault)], none)
    | _ => ([(.fault, .fault)], none)

end

def read (text : String) : Source :=
  let cs := text.toList
  let (root, rest) := value (3 * cs.length + 3) cs
  { dialect, root, anchors := [], jumps := 0
    complete := (rest.map fun cs => (skipBlanks cs).isEmpty).getD false }

end HornPlan.Json
