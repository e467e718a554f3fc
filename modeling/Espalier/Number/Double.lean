/-!
# Binary64 numbers

A double is held as its sixty-four bits, so that equality is equality of bits and every operation is
a computation on natural numbers.  The one rounding rule of the library is `ofRatio`: the exact
quotient of two natural numbers, rounded to the nearest double with ties to the even significand.
Integers, decimals, products and quotients all go through it.
-/

namespace Espalier

/-- A binary64 number, given by its bits: a sign, eleven exponent bits, fifty-two fraction bits. -/
structure Double where
  bits : UInt64
deriving DecidableEq

namespace Double

/-! ## Fields and classes -/

abbrev signWeight : Nat := 0x8000000000000000

/-- The weight of the lowest exponent bit, which is the number of fractions. -/
abbrev exponentWeight : Nat := 0x10000000000000

def isNegative (x : Double) : Bool :=
  x.bits.toNat / signWeight == 1

def exponentField (x : Double) : Nat :=
  x.bits.toNat / exponentWeight % 2048

def fractionField (x : Double) : Nat :=
  x.bits.toNat % exponentWeight

def isNaN (x : Double) : Bool :=
  x.exponentField == 2047 && x.fractionField != 0

def isInfinite (x : Double) : Bool :=
  x.exponentField == 2047 && x.fractionField == 0

def isFinite (x : Double) : Bool :=
  x.exponentField != 2047

def isZero (x : Double) : Bool :=
  x.bits.toNat % signWeight == 0

/-- The integer `m` of the magnitude `m * 2 ^ q` of a finite double. -/
def significand (x : Double) : Nat :=
  if x.exponentField = 0 then x.fractionField else x.fractionField + exponentWeight

/-- The integer `q` of the magnitude `m * 2 ^ q` of a finite double. -/
def exponent (x : Double) : Int :=
  (max x.exponentField 1 : Nat) - 1075

def ofMagnitude (negative : Bool) (magnitude : Nat) : Double :=
  ⟨UInt64.ofNat ((if negative then signWeight else 0) + magnitude)⟩

def zero (negative : Bool) : Double :=
  ofMagnitude negative 0

def infinity (negative : Bool) : Double :=
  ofMagnitude negative (2047 * exponentWeight)

def nan : Double :=
  ofMagnitude false (2047 * exponentWeight + exponentWeight / 2)

def negate (x : Double) : Double :=
  ⟨x.bits ^^^ UInt64.ofNat signWeight⟩

/-! ## Rounding an exact quotient -/

/-- `m * 2 ^ e` as the shift of a natural number, where bits below the point are lost. -/
def shifted (m : Nat) (e : Int) : Nat :=
  if 0 ≤ e then m <<< e.toNat else m >>> (-e).toNat

/-- The greatest `e` with `2 ^ e ≤ num / den`, for positive `num` and `den`. -/
def floorLog2 (num den : Nat) : Int :=
  let e : Int := (num.log2 : Int) - den.log2
  let reaches := if 0 ≤ e then den <<< e.toNat ≤ num else den ≤ num <<< (-e).toNat
  if reaches then e else e - 1

/-- The quotient rounded to the nearest integer, a tie going to the even neighbour. -/
def roundHalfEven (num den : Nat) : Nat :=
  let q := num / den
  let r := num % den
  if 2 * r < den then q
  else if den < 2 * r then q + 1
  else if q % 2 = 0 then q else q + 1

/--
The double nearest to `num / den`, a tie going to the even significand.  The significand `m` is
rounded on the grid of the binade, or on the finest grid when the quotient is subnormal; because
`m` carries its leading bit, adding it to the shifted exponent also carries a round-up to the next
binade.
-/
def ofRatio (negative : Bool) (num den : Nat) : Double :=
  if num = 0 ∨ den = 0 then zero negative
  else
    let q := max (floorLog2 num den - 52) (-1074)
    let m :=
      if 0 ≤ q then roundHalfEven num (den <<< q.toNat)
      else roundHalfEven (num <<< (-q).toNat) den
    ofMagnitude negative (min (m + (q + 1074).toNat * exponentWeight) (2047 * exponentWeight))

def ofNat (n : Nat) : Double :=
  ofRatio false n 1

/-- The double nearest to an integer; zero becomes positive zero. -/
def ofInt (n : Int) : Double :=
  ofRatio (decide (n < 0)) n.natAbs 1

/-! ## The exact value of a finite double -/

def numerator (x : Double) : Nat :=
  x.significand <<< x.exponent.toNat

def denominator (x : Double) : Nat :=
  1 <<< (-x.exponent).toNat

def toInt? (x : Double) : Option Int :=
  if x.isFinite && x.numerator % x.denominator == 0 then
    let n : Int := x.numerator / x.denominator
    some (if x.isNegative then -n else n)
  else none

/-- The order of the values of two doubles that are not NaN. -/
def order (x y : Double) : Ordering :=
  let key (z : Double) : Int :=
    let m : Int := (z.bits.toNat % signWeight : Nat)
    if z.isNegative then -m else m
  compare (key x) (key y)

def orderInt (x : Double) (n : Int) : Ordering :=
  if x.isInfinite then (if x.isNegative then .lt else .gt)
  else
    let m : Int := x.numerator
    compare (if x.isNegative then -m else m) (n * x.denominator)

/-! ## Arithmetic -/

/-- The rounded product of two doubles that are not NaN. -/
def mul (x y : Double) : Double :=
  let negative := x.isNegative != y.isNegative
  if x.isInfinite || y.isInfinite then
    if x.isZero || y.isZero then nan else infinity negative
  else ofRatio negative (x.numerator * y.numerator) (x.denominator * y.denominator)

def div (x y : Double) : Double :=
  let negative := x.isNegative != y.isNegative
  if x.isInfinite then (if y.isInfinite then nan else infinity negative)
  else if y.isInfinite then zero negative
  else if y.isZero then (if x.isZero then nan else infinity negative)
  else ofRatio negative (x.numerator * y.denominator) (x.denominator * y.numerator)

/--
The double nearest to `coefficient * 10 ^ exponent`.  Values beyond every finite double and values
below half of the least one are settled by counting digits, so no huge power is formed.
-/
def ofDecimal (negative : Bool) (coefficient : Nat) (exponent : Int) : Double :=
  if coefficient = 0 then zero negative
  else
    -- The value lies between the powers of ten `top - 1` and `top`.
    let top := exponent + (Nat.toDigits 10 coefficient).length
    if 310 < top then infinity negative
    else if top < -330 then zero negative
    else if 0 ≤ exponent then ofRatio negative (coefficient * Nat.pow 10 exponent.toNat) 1
    else ofRatio negative coefficient (Nat.pow 10 (-exponent).toNat)

end Double
end Espalier
