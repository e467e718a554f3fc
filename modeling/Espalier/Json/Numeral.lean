import Espalier.Json.Basic
import Espalier.Text.Ascii

/-!
# JSON numerals

The grammar of a JSON number and the number that it denotes.  Integers that fit sixty-four bits are
exact.  All others go through a significand of at most sixty-four bits that is scaled by one rounded
power of ten, so the result can differ from the nearest double in its last place; the rule is stated
step by step in `significand`, `scaleExponent` and `scaled?`.
-/

namespace Espalier
namespace Json

structure Numeral where
  negative : Bool
  whole : List Char
  fraction : List Char
  exponent : Option (Bool × List Char)

namespace Numeral

/-! ## Grammar -/

def digits (cs : List Char) : List Char × List Char :=
  (cs.takeWhile Char.isDigit, cs.dropWhile Char.isDigit)

/-- The whole part: a zero alone, or digits that do not start with zero. -/
def whole? (cs : List Char) : Option (List Char × List Char) :=
  match digits cs with
  | ([], _) => none
  | ('0' :: _ :: _, _) => none
  | (ds, rest) => some (ds, rest)

/-- The fraction after the point, which has at least one digit; no point means no fraction. -/
def fraction? : List Char → Option (List Char × List Char)
  | '.' :: cs =>
    match digits cs with
    | ([], _) => none
    | (ds, rest) => some (ds, rest)
  | cs => some ([], cs)

def exponent? (cs : List Char) : Option (Option (Bool × List Char) × List Char) :=
  let signed (negative : Bool) (cs : List Char) :=
    match digits cs with
    | ([], _) => none
    | (ds, rest) => some (some (negative, ds), rest)
  let afterMark (cs : List Char) :=
    match cs with
    | '+' :: rest => signed false rest
    | '-' :: rest => signed true rest
    | rest => signed false rest
  match cs with
  | 'e' :: rest => afterMark rest
  | 'E' :: rest => afterMark rest
  | rest => some (none, rest)

def read? (cs : List Char) : Option (Numeral × List Char) := do
  let (negative, cs) :=
    match cs with
    | '-' :: rest => (true, rest)
    | rest => (false, rest)
  let (ds, cs) ← whole? cs
  let (fs, cs) ← fraction? cs
  let (e, cs) ← exponent? cs
  return (⟨negative, ds, fs, e⟩, cs)

/-! ## Value -/

/-- Takes digits into a significand while it fits sixty-four bits; returns the digits left over. -/
def takeDigits (significand : Nat) : List Char → Nat × List Char
  | [] => (significand, [])
  | c :: rest =>
    let next := significand * 10 + (c.toNat - '0'.toNat)
    -- The first digit that does not fit ends the significand, also if a later one would fit.
    if next < UInt64.size then takeDigits next rest else (significand, c :: rest)

/--
The significand and its decimal exponent before the written exponent: whole digits that do not fit
each add one to the exponent, fraction digits that fit each take one away, and later ones are
dropped.
-/
def significand (n : Numeral) : Nat × Int :=
  let (whole, excess) := takeDigits 0 n.whole
  let (all, unused) := takeDigits whole n.fraction
  (all, (excess.length : Int) - ((n.fraction.length : Int) - unused.length))

def clampExponent (e : Int) : Int :=
  max Int32.minValue.toInt (min Int32.maxValue.toInt e)

/-- The decimal exponent in all, or the sign of a written exponent that exceeds its bounds. -/
def scaleExponent (start : Int) : Option (Bool × List Char) → Except Bool Int
  | none => .ok start
  | some (negative, ds) =>
    let e : Int := Ascii.decimalValue ds
    if Int32.maxValue.toInt < e then .error negative
    else .ok (clampExponent (if negative then start - e else start + e))

/-- The double nearest to a power of ten. -/
def powerOfTen (e : Nat) : Double :=
  Double.ofNat (Nat.pow 10 e)

/-- Divides by the power `10 ^ 308` a number of times; nothing changes once zero is reached. -/
def divideDown : Nat → Double → Double
  | 0, x => x
  | steps + 1, x => if x.isZero then x else divideDown steps (x.div (powerOfTen 308))

/--
A significand times a power of ten: one rounded product or quotient by a rounded power, after
dividing by `10 ^ 308` as often as the exponent needs.  An infinite result is refused.
-/
def scaled? (significand : Nat) (e : Int) : Option Double :=
  let x := Double.ofNat significand
  if 308 < e then (if x.isZero then some x else none)
  else if 0 ≤ e then
    let y := x.mul (powerOfTen e.toNat)
    if y.isInfinite then none else some y
  else
    let n := (-e).toNat
    -- As many whole steps as leave a last one between 1 and 308.
    let steps := (n - 1) / 308
    some ((divideDown steps x).div (powerOfTen (n - 308 * steps)))

/-- The double that a number with a point, an exponent or too many digits denotes. -/
def double? (n : Numeral) : Option Double := do
  let (m, start) := n.significand
  let magnitude ←
    match scaleExponent start n.exponent with
    | .ok e => scaled? m e
    | .error negative => if m ≠ 0 ∧ !negative then none else some (Double.zero false)
  return if n.negative then magnitude.negate else magnitude

/--
The JSON value that a numeral denotes.  Negative zero is a double, and so is a whole number that
does not fit.
-/
def value? (n : Numeral) : Option Json :=
  let whole : Int := Ascii.decimalValue n.whole
  let signed := if n.negative then -whole else whole
  if n.fraction.isEmpty && n.exponent.isNone then
    if n.negative && whole == 0 then some (ofDouble (Double.zero true))
    else if h : Int64.minValue.toInt ≤ signed ∧ signed < UInt64.size then
      some (.integer ⟨signed, h.1, h.2⟩)
    else n.double?.map ofDouble
  else n.double?.map ofDouble

end Numeral
end Json
end Espalier
