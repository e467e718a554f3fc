import Espalier.Text.Ascii
import Espalier.Text.Utf8

/-!
# Percent codes

A byte of a text may be written as `%` and two hexadecimal digits.  In the query of a data source
name, names and values are written so too, and there `+` stands for a blank.
-/

namespace Espalier
namespace Percent

def hexValue? (b : UInt8) : Option Nat :=
  Ascii.digitValue? 16 (Char.ofNat b.toNat)

/-- Replaces every percent code by its byte; a `%` before anything else stands for itself. -/
def decodeBytes : List UInt8 → List UInt8
  | b :: h :: l :: rest =>
    match hexValue? h, hexValue? l with
    | some high, some low =>
      if b = 37 then UInt8.ofNat (16 * high + low) :: decodeBytes rest
      else b :: decodeBytes (h :: l :: rest)
    | _, _ => b :: decodeBytes (h :: l :: rest)
  | bytes => bytes

/-- The text that a text with percent codes stands for, if it is one. -/
def decode? (s : String) : Option String :=
  String.fromUTF8? ⟨(decodeBytes s.toUTF8.toList).toArray⟩

def withBlanks (s : String) : String :=
  String.ofList (s.toList.map fun c => if c = '+' then ' ' else c)

/-- A name or value of a query; bytes that make up no text are replaced. -/
def decodeQuery (s : String) : String :=
  Utf8.read (decodeBytes (withBlanks s).toUTF8.toList)

end Percent
end Espalier
