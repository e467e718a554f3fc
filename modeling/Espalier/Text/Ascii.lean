/-!
# ASCII letters in names

Names of tables and columns are compared without regard to the case of ASCII letters; every other
character stands for itself.  This file holds the case fold, the comparison it induces, and the
grammar of identifiers.
-/

namespace Espalier
namespace Ascii

/-- The text with every ASCII capital made small. -/
def fold (s : String) : String :=
  String.ofList (s.toList.map Char.toLower)

/-- The text with every small ASCII letter made capital. -/
def raise (s : String) : String :=
  String.ofList (s.toList.map Char.toUpper)

/-- Two texts are the same name when they differ at most in the case of ASCII letters. -/
def sameName (a b : String) : Bool :=
  fold a == fold b

theorem sameName_iff {a b : String} : sameName a b = true ↔ fold a = fold b := by
  simp [sameName]

theorem sameName_refl (a : String) : sameName a a = true :=
  sameName_iff.2 rfl

/-- A character that may open an identifier. -/
def opensIdentifier (c : Char) : Bool :=
  c.isAlpha || c == '_'

/-- A character that may stand inside an identifier. -/
def continuesIdentifier (c : Char) : Bool :=
  c.isAlphanum || c == '_'

/-- An identifier is a letter or `_` followed by letters, digits and `_`, all of them ASCII. -/
def isIdentifier (s : String) : Bool :=
  match s.toList with
  | [] => false
  | c :: rest => opensIdentifier c && rest.all continuesIdentifier

def digitValue? (base : Nat) (c : Char) : Option Nat :=
  let value? :=
    if c.isDigit then some (c.toNat - '0'.toNat)
    else if 'a' ≤ c ∧ c ≤ 'f' then some (c.toNat - 'a'.toNat + 10)
    else if 'A' ≤ c ∧ c ≤ 'F' then some (c.toNat - 'A'.toNat + 10)
    else none
  value?.filter (· < base)

/-- The number that a run of decimal digits denotes, the first digit being the highest. -/
def decimalValue (digits : List Char) : Nat :=
  digits.foldl (fun n c => 10 * n + (c.toNat - '0'.toNat)) 0

end Ascii
end Espalier
