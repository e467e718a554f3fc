import Espalier.Number.Double
import Espalier.Text.Ascii

/-!
# Decimal numerals

The usual grammar of a decimal numeral: a sign, digits with at most one point among or around them,
and an exponent.  A numeral denotes the double nearest to its exact value.  YAML scalars and text
stored in numeric columns are read by this grammar.
-/

namespace Espalier

/-- The parts of a decimal numeral; the whole part and the fraction are not both empty. -/
structure Numeral where
  negative : Bool
  whole : List Char
  fraction : List Char
  exponent : Int
  /-- Whether there is neither a point nor an exponent. -/
  isWhole : Bool

namespace Numeral

def signed : List Char → Bool × List Char
  | '-' :: cs => (true, cs)
  | '+' :: cs => (false, cs)
  | cs => (false, cs)

/-- The exponent that makes up the rest of a numeral; nothing left means none. -/
def exponent? : List Char → Option (Option Int)
  | [] => some none
  | c :: cs =>
    if c = 'e' || c = 'E' then
      let (negative, ds) := signed cs
      if ds.isEmpty || !ds.all Char.isDigit then none
      else
        let e : Int := Ascii.decimalValue ds
        some (some (if negative then -e else e))
    else none

def ofChars? (cs : List Char) : Option Numeral := do
  let (negative, cs) := signed cs
  let whole := cs.takeWhile Char.isDigit
  let rest := cs.dropWhile Char.isDigit
  let (point, fraction, rest) :=
    match rest with
    | '.' :: rest => (true, rest.takeWhile Char.isDigit, rest.dropWhile Char.isDigit)
    | rest => (false, [], rest)
  if whole.isEmpty && fraction.isEmpty then none
  else
    let e ← exponent? rest
    some { negative, whole, fraction, exponent := e.getD 0, isWhole := !point && e.isNone }

def toDouble (n : Numeral) : Double :=
  Double.ofDecimal n.negative (Ascii.decimalValue (n.whole ++ n.fraction))
    (n.exponent - n.fraction.length)

def toInt (n : Numeral) : Int :=
  let m : Int := Ascii.decimalValue n.whole
  if n.negative then -m else m

end Numeral
end Espalier
