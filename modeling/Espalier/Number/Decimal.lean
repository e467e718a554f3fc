import Espalier.Number.Double

/-!
# Decimal text of doubles

The fewest decimal digits that read back as a given double, the digits of a double rounded to a
given count, and the layout of digits as text.  The search looks at the two neighbours of the value
on the grid of one digit, two digits, and so on; the first grid with a neighbour inside the rounding
interval wins.  Where positional notation ends and how an exponent is written is data, one
`Style` for each format that prints numbers.
-/

namespace Espalier

/-- The number `coefficient * 10 ^ exponent`. -/
structure Decimal where
  coefficient : Nat
  exponent : Int
deriving DecidableEq

namespace Decimal

/-! ## Digits of a positive quotient -/

def reaches (num den : Nat) (e : Int) : Bool :=
  if 0 ≤ e then decide (den * Nat.pow 10 e.toNat ≤ num)
  else decide (den ≤ num * Nat.pow 10 (-e).toNat)

/-- The greatest `e` with `10 ^ e ≤ num / den`, found from the binary logarithm. -/
def floorLog10 (num den : Nat) : Int :=
  -- The estimate is off by one at most, so one comparison on each side settles it.
  let e := Double.floorLog2 num den * 30103 / 100000
  if !reaches num den e then e - 1
  else if reaches num den (e + 1) then e + 1
  else e

/-- The quotient in units of `10 ^ p`, as a numerator and a denominator. -/
def inUnits (num den : Nat) (p : Int) : Nat × Nat :=
  if 0 ≤ p then (num, den * Nat.pow 10 p.toNat) else (num * Nat.pow 10 (-p).toNat, den)

/-- The quotient rounded to a count of digits, a half going away from zero. -/
def rounded (digits num den : Nat) : Decimal :=
  let p := floorLog10 num den + 1 - digits
  let u := inUnits num den p
  ⟨(2 * u.1 + u.2) / (2 * u.2), p⟩

def trimZeros (fuel : Nat) (d : Decimal) : Decimal :=
  match fuel with
  | 0 => d
  | fuel + 1 =>
    if d.coefficient % 10 = 0 ∧ d.coefficient ≠ 0 then
      trimZeros fuel ⟨d.coefficient / 10, d.exponent + 1⟩
    else d

/-! ## Shortest digits -/

/--
The reals that round to a finite positive double, as lower end, value and upper end in quarters of
its last place.  Below the least significand of a binade the grid is twice as fine.
-/
def interval (x : Double) : Nat × Nat × Nat :=
  let m := x.significand
  let low := if m = Double.exponentWeight ∧ 1 < x.exponentField then 4 * m - 1 else 4 * m - 2
  (low, 4 * m, 4 * m + 2)

/-- The neighbour of the value on the grid `10 ^ p` that reads back as `x` and lies nearest. -/
def neighbour? (x : Double) (p : Int) : Option Decimal :=
  let (low, mid, high) := interval x
  -- Quarters of the last place keep both ends of the interval whole.
  let scale (n : Nat) : Nat × Nat :=
    let e := x.exponent - 2
    inUnits (n <<< e.toNat) (1 <<< (-e).toNat) p
  let (midNum, den) := scale mid
  let (lowNum, _) := scale low
  let (highNum, _) := scale high
  let inside (c : Nat) : Bool :=
    if x.significand % 2 = 0 then lowNum ≤ c * den && c * den ≤ highNum
    else lowNum < c * den && c * den < highNum
  let below := midNum / den
  let above := below + 1
  let nearer :=
    if 2 * midNum < (below + above) * den then below
    else if (below + above) * den < 2 * midNum then above
    else if below % 2 = 0 then below else above
  if below ≠ 0 && inside below && inside above then some ⟨nearer, p⟩
  else if below ≠ 0 && inside below then some ⟨below, p⟩
  else if inside above then some ⟨above, p⟩
  else none

/-- The shortest decimal that reads back as a finite nonzero double, the nearest of those. -/
def shortest (x : Double) : Decimal :=
  let top := floorLog10 x.numerator x.denominator
  let hit := (List.range 17).findSome? fun (n : Nat) => neighbour? x (top - n)
  trimZeros 17 (hit.getD ⟨0, 0⟩)

/-! ## Layout -/

structure Style where
  /-- The least exponent of the first digit that is written positionally. -/
  leastPositional : Int
  /-- The greatest exponent of the first digit that is written positionally. -/
  greatestPositional : Int
  /-- The least number of digits of a written exponent. -/
  exponentWidth : Nat
  /-- Whether a one-digit mantissa before an exponent gets `.0`. -/
  mantissaPoint : Bool

def zeros (n : Nat) : String :=
  String.ofList (List.replicate n '0')

/-- The text of a positive decimal whose coefficient does not end in zero. -/
def layout (style : Style) (d : Decimal) : String :=
  let digits := Nat.toDigits 10 d.coefficient
  let n := digits.length
  let e : Int := d.exponent + n - 1
  let text (cs : List Char) := String.ofList cs
  if style.leastPositional ≤ e && e ≤ style.greatestPositional then
    if e < 0 then "0." ++ zeros (-e - 1).toNat ++ text digits
    else
      let whole := e.toNat + 1
      if n ≤ whole then text digits ++ zeros (whole - n) ++ ".0"
      else text (digits.take whole) ++ "." ++ text (digits.drop whole)
  else
    let mantissa :=
      if n = 1 then text digits ++ (if style.mantissaPoint then ".0" else "")
      else text (digits.take 1) ++ "." ++ text (digits.drop 1)
    let magnitude := toString e.natAbs
    mantissa ++ "e" ++ (if e < 0 then "-" else "+") ++
      zeros (style.exponentWidth - magnitude.length) ++ magnitude

end Decimal

namespace Double

open Decimal

/-- The fewest digits that read back, set out in a style.  Only for finite doubles. -/
def shortestText (style : Style) (x : Double) : String :=
  (if x.isNegative then "-" else "") ++ if x.isZero then "0.0" else (shortest x).layout style

def roundedText (style : Style) (digits : Nat) (x : Double) : String :=
  (if x.isNegative then "-" else "") ++
    (trimZeros digits (rounded digits x.numerator x.denominator)).layout style

end Double
end Espalier
