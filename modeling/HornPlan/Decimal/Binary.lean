/-
  HornPlan/Decimal/Binary.lean
  ============================
  **Finite binary floating-point numbers, in exact arithmetic.**

  Field values may hold numbers with a fraction.  Such a number is kept as a
  signed `significand * 2 ^ exponent` with a 53-bit significand, and every
  operation below computes the exact quotient over the natural numbers and
  rounds it once, to nearest with ties to even.  No machine float is involved,
  so each result can be computed inside a proof.
-/

namespace HornPlan

/-- `2 ^ n`. -/
def twoTo (n : Nat) : Nat := Nat.pow 2 n

/-- `10 ^ n`. -/
def tenTo (n : Nat) : Nat := Nat.pow 10 n

/-- A finite number `± significand * 2 ^ exponent`.  The values built here have a
    significand below `2 ^ 53` and the least exponent that keeps it so. -/
structure Binary where
  negative : Bool
  significand : Nat
  exponent : Int
deriving DecidableEq, Repr, Inhabited

namespace Binary

/-- The exponent of the smallest positive number, `2 ^ -1074`. -/
def leastExponent : Int := -1074

def greatestExponent : Int := 971

def zero (negative : Bool) : Binary := ⟨negative, 0, leastExponent⟩

def isZero (x : Binary) : Bool := x.significand == 0

/-- The fraction `num / den` in units of `2 ^ q`, again as a fraction. -/
def scaled (num den : Nat) (q : Int) : Nat × Nat :=
  if 0 ≤ q then (num, den * twoTo q.toNat) else (num * twoTo (-q).toNat, den)

/-- A quotient rounded to the nearest natural number, ties to even. -/
def nearest (num den : Nat) : Nat :=
  let down := num / den
  let rest := num % den
  if 2 * rest < den then down
  else if den < 2 * rest then down + 1
  else down + down % 2

/-- The exponent at which `num / den` has a 53-bit significand. -/
def exponentFor (num den : Nat) : Int :=
  let guess := max ((num.log2 : Int) - (den.log2 : Int) - 53) leastExponent
  let (n, d) := scaled num den guess
  if twoTo 53 ≤ n / d then guess + 1 else guess

/-- The number nearest to `num / den`, or `none` when it is beyond the finite
    range.  The denominator is positive. -/
def ofRatio (negative : Bool) (num den : Nat) : Option Binary :=
  if num = 0 then some (zero negative)
  else
    let q := exponentFor num den
    let (n, d) := scaled num den q
    let m := nearest n d
    let (m, q) := if m = twoTo 53 then (twoTo 52, q + 1) else (m, q)
    if greatestExponent < q then none else some ⟨negative, m, q⟩

def toRatio (x : Binary) : Nat × Nat :=
  if 0 ≤ x.exponent then (x.significand * twoTo x.exponent.toNat, 1)
  else (x.significand, twoTo (-x.exponent).toNat)

/-- The number nearest to `digits * 10 ^ exponent`.  Exponents far outside the
    range are decided by the count of digits alone. -/
def ofDecimal (negative : Bool) (digits : Nat) (exponent : Int) : Option Binary :=
  let places : Int := (Nat.toDigits 10 digits).length + exponent
  if digits = 0 || places < -330 then some (zero negative)
  else if 310 < places then none
  else if 0 ≤ exponent then ofRatio negative (digits * tenTo exponent.toNat) 1
  else ofRatio negative digits (tenTo (-exponent).toNat)

/-- The product of the magnitudes, rounded once; the sign is that of `x`. -/
def mul (x y : Binary) : Option Binary :=
  let (a, b) := x.toRatio
  let (c, d) := y.toRatio
  ofRatio x.negative (a * c) (b * d)

/-- The quotient of the magnitudes, rounded once; the sign is that of `x` and `y`
    is not zero. -/
def div (x y : Binary) : Option Binary :=
  let (a, b) := x.toRatio
  let (c, d) := y.toRatio
  ofRatio x.negative (a * d) (b * c)

end Binary

end HornPlan
