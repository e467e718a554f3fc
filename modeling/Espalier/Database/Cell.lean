import Espalier.Number.Decimal
import Espalier.Number.Numeral
import Espalier.Number.Word
import Espalier.Text.Ascii
import Espalier.Text.Search

/-!
# Stored values

What a cell of a table holds, how a column's declared type bends a value on its way in, and how
stored values compare.  A declared type is not a check: a value that the type cannot bend is stored
as it is.  Nor is a stored text checked: its bytes are kept whether or not they are UTF-8.
-/

namespace Espalier
namespace Database

/-- The bytes of a stored text that are not UTF-8. -/
structure Garbled where
  bytes : List UInt8
  invalid : String.fromUTF8? ⟨bytes.toArray⟩ = none
deriving DecidableEq

inductive Cell where
  | null
  | int (n : Int64)
  | real (x : Double)
  | text (s : String)
  /-- A value of the class of texts that is no text. -/
  | garbled (g : Garbled)
  | blob (bytes : List UInt8)
deriving DecidableEq, Inhabited

/-- What a column does to the values it takes in. -/
inductive Affinity where
  | unchanged
  | text
  | numeric
  | real
deriving DecidableEq

namespace Affinity

/-- The affinity of a declared type goes by the words that its name contains. -/
def ofDeclared (declared : String) : Affinity :=
  let name := Ascii.raise declared
  let has (word : String) := Search.occursIn word name
  if has "INT" then numeric
  else if has "CHAR" || has "CLOB" || has "TEXT" then text
  else if has "BLOB" || name.isEmpty then unchanged
  else if has "REAL" || has "FLOA" || has "DOUB" then real
  else numeric

end Affinity

namespace Cell

/-- A double as a value: what is not a number is no value. -/
def ofDouble (x : Double) : Cell :=
  if x.isNaN then null else real x

def ofBytes (bytes : List UInt8) : Cell :=
  match h : String.fromUTF8? ⟨bytes.toArray⟩ with
  | some s => text s
  | none => garbled ⟨bytes, h⟩

/-! ## Numbers in text -/

/-- The blanks allowed around a number in text. -/
def isGap (c : Char) : Bool :=
  c == ' ' || ('\t' ≤ c && c ≤ '\r')

def numeral? (s : String) : Option Numeral :=
  let cs := s.toList.dropWhile isGap
  Numeral.ofChars? (cs.reverse.dropWhile isGap).reverse

/-- The significand from which on further digits are not taken in. -/
def fullSignificand : Nat :=
  1844674407370955160

/-- Takes in the digits of a number one by one, with the power of ten that they leave over. -/
def significand (m : Nat) (e : Int) : List Char → List Char → Nat × Int
  | [], [] => (m, e)
  | [], d :: ds =>
    if fullSignificand ≤ m then (m, e)
    else significand (10 * m + (d.toNat - '0'.toNat)) (e - 1) [] ds
  | d :: ds, fraction =>
    if fullSignificand ≤ m then significand m (e + 1) ds fraction
    else significand (10 * m + (d.toNat - '0'.toNat)) e ds fraction

/-- The double that a numeral in text is stored as. -/
def doubleOf (n : Numeral) : Double :=
  let (m, e) := significand 0 0 n.whole n.fraction
  Double.ofDecimal n.negative m (e + n.exponent)

/-- A whole double strictly inside the integers becomes an integer. -/
def settle (x : Double) : Cell :=
  match x.toInt?.bind int64? with
  | some n => if n = Int64.minValue ∨ n = Int64.maxValue then real x else int n
  | none => real x

/-- A number in text becomes that number: an integer if it is written as one and fits. -/
def ofNumeral (n : Numeral) : Cell :=
  match if n.isWhole then int64? n.toInt else none with
  | some i => int i
  | none => settle (doubleOf n)

/-- The value that a numeric column stores: numbers in text become numbers, whole doubles become
integers. -/
def toNumeric : Cell → Cell
  | real x => settle x
  | text s =>
    match numeral? s with
    | some n => ofNumeral n
    | none => text s
  | c => c

/-! ## Text of numbers -/

/-- Doubles in text have fifteen digits at most and two digits of exponent at least. -/
def doubleStyle : Decimal.Style :=
  ⟨-4, 14, 2, true⟩

def doubleText (x : Double) : String :=
  if x.isInfinite then (if x.isNegative then "-Inf" else "Inf")
  else if x.isZero then "0.0"
  else x.roundedText doubleStyle 15

def toText : Cell → Cell
  | int n => text (toString n.toInt)
  | real x => text (doubleText x)
  | c => c

/-- The value that a column for doubles stores: integers and numbers in text become doubles. -/
def toReal (c : Cell) : Cell :=
  match c.toNumeric with
  | int n => real (Double.ofInt n.toInt)
  | c => c

end Cell

def Affinity.apply : Affinity → Cell → Cell
  | unchanged, c => c
  | text, c => c.toText
  | numeric, c => c.toNumeric
  | real, c => c.toReal

namespace Cell

/-! ## Comparison -/

def rank : Cell → Nat
  | null => 0
  | int _ => 1
  | real _ => 1
  | text _ => 2
  | garbled _ => 2
  | blob _ => 3

/-- The order of values: no value, numbers by size, then texts and last blobs, both by their bytes.
The bytes of two texts compare as their code points do. -/
def order : Cell → Cell → Ordering
  | int m, int n => compare m.toInt n.toInt
  | int m, real y => (y.orderInt m.toInt).swap
  | real x, int n => x.orderInt n.toInt
  | real x, real y => x.order y
  | text s, text t => compare s t
  | text s, garbled h => compare s.toUTF8.toList h.bytes
  | garbled g, text t => compare g.bytes t.toUTF8.toList
  | garbled g, garbled h => compare g.bytes h.bytes
  | blob b, blob c => compare b c
  | a, b => compare a.rank b.rank

/-- Equality as conditions use it: no value equals nothing. -/
def equals (a b : Cell) : Bool :=
  a != null && b != null && a.order b == .eq

def int? : Cell → Option Int64
  | int n => some n
  | _ => none

end Cell
end Database
end Espalier
