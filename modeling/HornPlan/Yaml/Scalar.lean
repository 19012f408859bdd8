/-
  HornPlan/Yaml/Scalar.lean
  =========================
  **What a YAML scalar denotes.**

  A plain scalar without a tag is resolved by its spelling: null, a truth value,
  an integer (decimal, or after `0x`, `0o`, `0b`), a number with a fraction, and
  otherwise a text.  Digits behind a leading zero are a text.  The four tags
  `!!bool`, `!!int`, `!!float` and `!!null` demand their type, any other tag makes
  a quoted scalar, or one with a standard tag, a text.
-/
import HornPlan.Node.Source
import HornPlan.Yaml.Tag

namespace HornPlan.Yaml

/-- How a scalar is written. -/
inductive Style where
  | plain
  | singleQuoted
  | doubleQuoted
  | literal
  | folded
deriving DecidableEq, Repr, Inhabited

/-! ### Spellings -/

def isNull (s : String) : Bool := s ∈ ["null", "Null", "NULL", "~"]

def bool? (s : String) : Option Bool :=
  if s ∈ ["true", "True", "TRUE"] then some true
  else if s ∈ ["false", "False", "FALSE"] then some false
  else none

/-- The value of a digit in a base up to sixteen. -/
def digit? (base : Nat) (c : Char) : Option Nat :=
  let v :=
    if c.isDigit then some (c.toNat - '0'.toNat)
    else if 'a' ≤ c ∧ c ≤ 'f' then some (c.toNat - 'a'.toNat + 10)
    else if 'A' ≤ c ∧ c ≤ 'F' then some (c.toNat - 'A'.toNat + 10)
    else none
  v.filter (· < base)

/-- A number in a base, written with one digit or more. -/
def number? (base : Nat) : List Char → Option Nat
  | [] => none
  | cs => cs.foldlM (fun n c => (digit? base c).map (n * base + ·)) 0

/-- A number below `limit`. -/
def natural? (base limit : Nat) (cs : List Char) : Option Nat :=
  (number? base cs).filter (· < limit)

def unsigned : List Char → List Char
  | '+' :: rest | '-' :: rest => rest
  | cs => cs

/-- Digits behind a leading zero, perhaps with a sign: not an integer. -/
def isZeroPadded (cs : List Char) : Bool :=
  match unsigned cs with
  | '0' :: rest => !rest.isEmpty && rest.all Char.isDigit
  | _ => false

/-- The number behind a base mark, or a decimal number. -/
def based? (limit : Nat) : List Char → Option Nat
  | '0' :: 'x' :: rest => natural? 16 limit rest
  | '0' :: 'o' :: rest => natural? 8 limit rest
  | '0' :: 'b' :: rest => natural? 2 limit rest
  | cs => natural? 10 limit cs

/-- An integer without a minus sign, below `limit`. -/
def nonnegative? (limit : Nat) (cs : List Char) : Option Nat :=
  if isZeroPadded cs then none
  else
    match cs with
    | '+' :: rest => based? limit rest
    | cs => based? limit cs

/-- An integer with a minus sign, down to `-limit`. -/
def negative? (limit : Nat) (cs : List Char) : Option Int :=
  if isZeroPadded cs then none
  else
    match cs with
    | '-' :: rest => (based? (limit + 1) rest).map fun n => -(n : Int)
    | _ => none

/-- The reading of an integer, if the scalar is one. -/
def integer? (cs : List Char) : Option Reading :=
  match nonnegative? (twoTo 64) cs with
  | some n => some (.int n)
  | none =>
    match negative? (twoTo 63) cs with
    | some n => some (.int n)
    | none =>
      match nonnegative? (twoTo 128) cs with
      | some n => some (.wide n)
      | none => (negative? (twoTo 127) cs).map .wide

/-- Digits with an optional point and an optional power of ten; at least one digit
    stands beside the point. -/
def decimal? (cs : List Char) : Option (Nat × Int) :=
  let whole := cs.takeWhile Char.isDigit
  let cs := cs.dropWhile Char.isDigit
  let (fraction, cs) :=
    match cs with
    | '.' :: rest => (rest.takeWhile Char.isDigit, rest.dropWhile Char.isDigit)
    | cs => ([], cs)
  let power : Option Int :=
    match cs with
    | [] => some 0
    | c :: rest =>
      if c = 'e' || c = 'E' then
        let n := number? 10 (unsigned rest)
        match rest with
        | '-' :: _ => n.map fun n => -(n : Int)
        | _ => n.map fun n => (n : Int)
      else none
  if whole.isEmpty && fraction.isEmpty then none
  else
    power.map fun e =>
      ((whole ++ fraction).foldl (fun n c => n * 10 + (c.toNat - '0'.toNat)) 0,
        e - fraction.length)

/-- A finite number with a fraction; one beyond the finite range is not a number. -/
def finite? (cs : List Char) : Option Binary :=
  let (negative, body) :=
    match cs with
    | '-' :: rest => (true, rest)
    | cs => (false, cs)
  (decimal? body).bind fun (n, e) => Binary.ofDecimal negative n e

/-- The reading of a number with a fraction, if the scalar is one. -/
def real? (cs : List Char) : Option Reading :=
  let positive :=
    match cs with
    | '+' :: rest => rest
    | cs => cs
  if String.ofList positive ∈ [".inf", ".Inf", ".INF"] then some (.nonFinite (some false))
  else if String.ofList cs ∈ ["-.inf", "-.Inf", "-.INF"] then some (.nonFinite (some true))
  else if String.ofList cs ∈ [".nan", ".NaN", ".NAN"] then some (.nonFinite none)
  else
    match cs, positive with
    | '+' :: _, '-' :: _ => none
    | _, _ => (finite? positive).map .real

/-- What a plain scalar without a tag denotes. -/
def resolve (s : String) : Reading :=
  let cs := s.toList
  if s.isEmpty || isNull s then .null
  else
    match bool? s with
    | some b => .bool b
    | none =>
      match integer? cs with
      | some r => r
      | none => if isZeroPadded cs then .text s else (real? cs).getD (.text s)

/-! ### Scalars with tags -/

/-- What a scalar with a style and perhaps a tag denotes. -/
def reading (s : String) (style : Style) (tag : Option Tag) : Reading :=
  let plain := if style = .plain then resolve s else .text s
  match tag with
  | none => plain
  | some t =>
    if t = Tag.standard "bool" then
      match bool? s with
      | some b => .bool b
      | none => .misfit s "a boolean"
    else if t = Tag.standard "int" then (integer? s.toList).getD (.misfit s "an integer")
    else if t = Tag.standard "float" then (real? s.toList).getD (.misfit s "a float")
    else if t = Tag.standard "null" then if isNull s then .null else .misfit s "null"
    else if t.isLocal then plain
    else .text s

/-- The scalar of a text, with all that a typed reading may ask for. -/
def scalar (s : String) (style : Style) (tag : Option Tag) : Scalar :=
  let r := reading s style tag
  let mayBeNull := tag.isNone || tag = some (Tag.standard "null")
  { reading := r
    asText := some s
    asInteger :=
      if style = .plain || (style = .literal && tag = some (Tag.standard "int")) then
        (nonnegative? (twoTo 64) s.toList).map fun n => (n : Int)
      else none
    tagged := tag.any Tag.namesVariant
    blank := style = .plain && s.isEmpty
    absent := style = .plain && mayBeNull && (match r with | .null => true | _ => false) }

end HornPlan.Yaml
