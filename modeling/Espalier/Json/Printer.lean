import Espalier.Json.Basic
import Espalier.Number.Decimal

/-!
# Writing JSON text

The compact form of a JSON value and the form indented by two blanks.  Strings escape the quote, the
backslash and the characters below U+0020 and nothing else; numbers are written with the fewest
digits that read back.
-/

namespace Espalier
namespace Json

/-- Exponents of the first digit from -5 to 15 are positional; `1e+16` and `1e-6` are not. -/
def decimalStyle : Decimal.Style where
  leastPositional := -5
  greatestPositional := 15
  exponentWidth := 1
  mantissaPoint := false

/-! ## Strings -/

def hexDigit (n : Nat) : Char :=
  Nat.digitChar n

def escapedChar (c : Char) : List Char :=
  if c = '"' then ['\\', '"']
  else if c = '\\' then ['\\', '\\']
  else if c = '\x08' then ['\\', 'b']
  else if c = '\x0c' then ['\\', 'f']
  else if c = '\n' then ['\\', 'n']
  else if c = '\r' then ['\\', 'r']
  else if c = '\t' then ['\\', 't']
  else if c.toNat < 0x20 then
    ['\\', 'u', '0', '0', hexDigit (c.toNat / 16), hexDigit (c.toNat % 16)]
  else [c]

def quotedChars (s : String) : List Char :=
  '"' :: s.toList.flatMap escapedChar ++ ['"']

/-! ## Scalars -/

def integerChars (n : Int) : List Char :=
  if n < 0 then '-' :: Nat.toDigits 10 n.natAbs else Nat.toDigits 10 n.natAbs

def doubleChars (x : Double) : List Char :=
  (x.shortestText decimalStyle).toList

/-! ## Compact form -/

mutual

def compactChars : Json → List Char
  | null => ['n', 'u', 'l', 'l']
  | bool true => ['t', 'r', 'u', 'e']
  | bool false => ['f', 'a', 'l', 's', 'e']
  | integer n => integerChars n.val
  | real x => doubleChars x.val
  | text s => quotedChars s
  | array [] => ['[', ']']
  | array (j :: rest) => '[' :: compactChars j ++ compactItems rest
  | object [] => ['\x7b', '\x7d']
  | object ((k, j) :: rest) =>
    '\x7b' :: quotedChars k ++ ':' :: compactChars j ++ compactMembers rest

def compactItems : List Json → List Char
  | [] => [']']
  | j :: rest => ',' :: compactChars j ++ compactItems rest

def compactMembers : List (String × Json) → List Char
  | [] => ['\x7d']
  | (k, j) :: rest => ',' :: quotedChars k ++ ':' :: compactChars j ++ compactMembers rest

end

def compact (j : Json) : String :=
  String.ofList j.compactChars

/-! ## Indented form -/

def lineBreak (level : Nat) : List Char :=
  '\n' :: List.replicate (2 * level) ' '

mutual

def indentedChars (level : Nat) : Json → List Char
  | array (j :: rest) =>
    '[' :: lineBreak (level + 1) ++ indentedChars (level + 1) j ++ indentedItems level rest
  | object ((k, j) :: rest) =>
    '\x7b' :: lineBreak (level + 1) ++ quotedChars k ++ ':' :: ' ' ::
      indentedChars (level + 1) j ++ indentedMembers level rest
  | j => compactChars j

def indentedItems (level : Nat) : List Json → List Char
  | [] => lineBreak level ++ [']']
  | j :: rest =>
    ',' :: lineBreak (level + 1) ++ indentedChars (level + 1) j ++ indentedItems level rest

def indentedMembers (level : Nat) : List (String × Json) → List Char
  | [] => lineBreak level ++ ['\x7d']
  | (k, j) :: rest =>
    ',' :: lineBreak (level + 1) ++ quotedChars k ++ ':' :: ' ' ::
      indentedChars (level + 1) j ++ indentedMembers level rest

end

def indented (j : Json) : String :=
  String.ofList (j.indentedChars 0)

end Json
end Espalier
