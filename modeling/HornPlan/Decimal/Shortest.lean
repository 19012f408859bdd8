/-
  HornPlan/Decimal/Shortest.lean
  ==============================
  **The shortest decimal that reads back to a given number.**

  Every finite number is the nearest one for a whole interval of reals.  For
  1, 2, … 17 digits the two neighbours of the number on that decimal grid are
  tested against the interval; the first grid with a hit gives the digits, and
  of two hits the nearer one is taken (the even one if both are equally near).
  How the digits are laid out is the business of a `NumeralStyle`, which every
  output format chooses for itself.
-/
import HornPlan.Decimal.Binary

namespace HornPlan

/-- The magnitude `digits * 10 ^ exponent`. -/
structure Decimal where
  digits : Nat
  exponent : Int
deriving DecidableEq, Repr, Inhabited

namespace Decimal

/-- The power of ten of the leading digit of `num / den`, for `num` positive. -/
def leadingPower (num den : Nat) : Int :=
  if den ≤ num then ((Nat.toDigits 10 (num / den)).length : Int) - 1
  else -((Nat.toDigits 10 ((den - 1) / num)).length : Int)

/-- The open or closed interval of reals that round to a number, in units that
    make both ends and the number itself natural numbers over `den`. -/
structure Interval where
  low : Nat
  value : Nat
  high : Nat
  den : Nat
  closed : Bool

/-- The interval of a positive number.  Below a power of two the grid is twice
    as fine; the ends belong to the interval when the significand is even. -/
def Interval.around (x : Binary) : Interval :=
  let fine := x.significand = twoTo 52 && Binary.leastExponent < x.exponent
  let unit := x.exponent - 2
  let scale := if 0 ≤ unit then twoTo unit.toNat else 1
  let value := 4 * x.significand
  { low := (value - (if fine then 1 else 2)) * scale
    value := value * scale
    high := (value + 2) * scale
    den := if 0 ≤ unit then 1 else twoTo (-unit).toNat
    closed := x.significand % 2 = 0 }

/-- Does `digits * 10 ^ exponent` round to the number of the interval? -/
def Interval.holds (i : Interval) (d : Decimal) : Bool :=
  let (num, den) :=
    if 0 ≤ d.exponent then (d.digits * tenTo d.exponent.toNat * i.den, 1)
    else (d.digits * i.den, tenTo (-d.exponent).toNat)
  if i.closed then i.low * den ≤ num && num ≤ i.high * den
  else i.low * den < num && num < i.high * den

/-- The best decimal on the grid of the given exponent, if one reads back. -/
def Interval.onGrid (i : Interval) (exponent : Int) : Option Decimal :=
  let (num, den) :=
    if 0 ≤ exponent then (i.value, i.den * tenTo exponent.toNat)
    else (i.value * tenTo (-exponent).toNat, i.den)
  let below : Decimal := ⟨num / den, exponent⟩
  let above : Decimal := ⟨num / den + 1, exponent⟩
  match i.holds below, i.holds above with
  | true, true => some ⟨Binary.nearest num den, exponent⟩
  | true, false => some below
  | false, true => some above
  | false, false => none

/-- The same magnitude without zeros at the end of the digits. -/
def trimmed : (fuel : Nat) → Decimal → Decimal
  | 0, d => d
  | fuel + 1, d =>
    if d.digits ≠ 0 && d.digits % 10 = 0 then trimmed fuel ⟨d.digits / 10, d.exponent + 1⟩ else d

/-- The fewest digits that read back to a positive number, nearest first. -/
def shortest (x : Binary) : Decimal :=
  let i := Interval.around x
  let top := leadingPower i.value i.den
  let found := (List.range 17).findSome? fun (n : Nat) => i.onGrid (top - (n : Int))
  trimmed 20 (found.getD ⟨0, 0⟩)

end Decimal

/-- The layout of a number with a fraction: the powers of ten (of the leading
    digit) between which it is written without an exponent, and whether a
    positive exponent carries a sign. -/
structure NumeralStyle where
  leastPlain : Int
  greatestPlain : Int
  signedExponent : Bool
deriving DecidableEq, Repr, Inhabited

namespace NumeralStyle

/-- A style that never writes an exponent. -/
def plain : NumeralStyle := ⟨-400, 400, false⟩

/-- `n` zeros. -/
def zeros (n : Nat) : String := String.ofList (List.replicate n '0')

/-- A decimal without a sign.  A point with a digit on either side is always
    written in plain layout. -/
def layout (style : NumeralStyle) (d : Decimal) : String :=
  let ds := (toString d.digits).toList
  let power : Int := d.exponent + ds.length - 1
  if style.leastPlain ≤ power && power ≤ style.greatestPlain then
    if 0 ≤ d.exponent then String.ofList ds ++ zeros d.exponent.toNat ++ ".0"
    else if 0 ≤ power then
      String.ofList (ds.take (power.toNat + 1)) ++ "." ++ String.ofList (ds.drop (power.toNat + 1))
    else "0." ++ zeros (-power - 1).toNat ++ String.ofList ds
  else
    let mantissa :=
      if ds.length = 1 then String.ofList ds
      else String.ofList (ds.take 1) ++ "." ++ String.ofList (ds.drop 1)
    let sign := if power < 0 then "-" else if style.signedExponent then "+" else ""
    mantissa ++ "e" ++ sign ++ toString power.natAbs

/-- The text of a number: its sign, then its shortest decimal. -/
def render (style : NumeralStyle) (x : Binary) : String :=
  let sign := if x.negative then "-" else ""
  sign ++ if x.isZero then "0.0" else style.layout (Decimal.shortest x)

end NumeralStyle

end HornPlan
