import Espalier.Json.Numeral

/-!
# Reading JSON text

A strict reader of JSON: four blank characters, no comments, no trailing commas, escapes and
surrogate pairs checked, and at most 127 levels of nesting.  Members are kept as written, so a
caller can tell a repeated member from a single one.
-/

namespace Espalier
namespace Json

def isBlank (c : Char) : Bool :=
  c == ' ' || c == '\n' || c == '\t' || c == '\r'

def skipBlanks (cs : List Char) : List Char :=
  cs.dropWhile isBlank

def expect : List Char → List Char → Option (List Char)
  | [], cs => some cs
  | w :: word, c :: cs => if w = c then expect word cs else none
  | _ :: _, [] => none

/-! ## Strings -/

def hexUnit? (a b c d : Char) : Option Nat := do
  let a ← Ascii.digitValue? 16 a
  let b ← Ascii.digitValue? 16 b
  let c ← Ascii.digitValue? 16 c
  let d ← Ascii.digitValue? 16 d
  return ((a * 16 + b) * 16 + c) * 16 + d

def isHighUnit (u : Nat) : Bool :=
  0xD800 ≤ u && u < 0xDC00

def isLowUnit (u : Nat) : Bool :=
  0xDC00 ≤ u && u < 0xE000

/-- The character of a numeric escape, whose digits come next; a surrogate needs its partner. -/
def unitEscape? : List Char → Option (Char × List Char)
  | a :: b :: c :: d :: rest => do
    let u ← hexUnit? a b c d
    if isHighUnit u then
      match rest with
      | '\\' :: 'u' :: e :: f :: g :: h :: rest => do
        let v ← hexUnit? e f g h
        if isLowUnit v then some (Char.ofNat (0x10000 + (u - 0xD800) * 0x400 + (v - 0xDC00)), rest)
        else none
      | _ => none
    else if isLowUnit u then none
    else some (Char.ofNat u, rest)
  | _ => none

/-- The character of an escape, the backslash being read already. -/
def escape? : List Char → Option (Char × List Char)
  | '"' :: rest => some ('"', rest)
  | '\\' :: rest => some ('\\', rest)
  | '/' :: rest => some ('/', rest)
  | 'b' :: rest => some ('\x08', rest)
  | 'f' :: rest => some ('\x0c', rest)
  | 'n' :: rest => some ('\n', rest)
  | 'r' :: rest => some ('\r', rest)
  | 't' :: rest => some ('\t', rest)
  | 'u' :: rest => unitEscape? rest
  | _ => none

/-- The characters of a string up to its closing quote, the opening one being read already. -/
def stringBody? : Nat → List Char → Option (List Char × List Char)
  | 0, _ => none
  | _ + 1, [] => none
  | fuel + 1, c :: rest =>
    if c = '"' then some ([], rest)
    else if c = '\\' then do
      let (x, rest) ← escape? rest
      let (xs, rest) ← stringBody? fuel rest
      return (x :: xs, rest)
    else if c.toNat < 0x20 then none
    else do
      let (xs, rest) ← stringBody? fuel rest
      return (c :: xs, rest)

def string? (cs : List Char) : Option (String × List Char) := do
  let (xs, rest) ← stringBody? cs.length cs
  return (String.ofList xs, rest)

/-! ## Values -/

mutual

def value? : (fuel depth : Nat) → List Char → Option (Json × List Char)
  | 0, _, _ => none
  | fuel + 1, depth, cs =>
    match skipBlanks cs with
    | [] => none
    | c :: rest =>
      if c = '"' then do
        let (s, rest) ← string? rest
        return (.text s, rest)
      else if c = '[' then
        match depth with
        | 0 => none
        | depth + 1 =>
          match skipBlanks rest with
          | ']' :: rest => some (.array [], rest)
          | rest => do
            let (items, rest) ← items? fuel depth rest
            return (.array items, rest)
      else if c = '\x7b' then
        match depth with
        | 0 => none
        | depth + 1 =>
          match skipBlanks rest with
          | '\x7d' :: rest => some (.object [], rest)
          | rest => do
            let (members, rest) ← members? fuel depth rest
            return (.object members, rest)
      else if c = 'n' then (expect ['u', 'l', 'l'] rest).map fun rest => (.null, rest)
      else if c = 't' then (expect ['r', 'u', 'e'] rest).map fun rest => (.bool true, rest)
      else if c = 'f' then (expect ['a', 'l', 's', 'e'] rest).map fun rest => (.bool false, rest)
      else do
        let (numeral, rest) ← Numeral.read? (c :: rest)
        let j ← numeral.value?
        return (j, rest)

/-- Reads the items of an array that has at least one, up to the closing bracket. -/
def items? : (fuel depth : Nat) → List Char → Option (List Json × List Char)
  | 0, _, _ => none
  | fuel + 1, depth, cs => do
    let (j, rest) ← value? fuel depth cs
    match skipBlanks rest with
    | ']' :: rest => return ([j], rest)
    | ',' :: rest => do
      let (items, rest) ← items? fuel depth rest
      return (j :: items, rest)
    | _ => none

/-- Reads the members of an object that has at least one, up to the closing brace. -/
def members? : (fuel depth : Nat) → List Char → Option (List (String × Json) × List Char)
  | 0, _, _ => none
  | fuel + 1, depth, cs =>
    match skipBlanks cs with
    | '"' :: rest => do
      let (key, rest) ← string? rest
      match skipBlanks rest with
      | ':' :: rest => do
        let (j, rest) ← value? fuel depth rest
        match skipBlanks rest with
        | '\x7d' :: rest => return ([(key, j)], rest)
        | ',' :: rest => do
          let (members, rest) ← members? fuel depth rest
          return ((key, j) :: members, rest)
        | _ => none
      | _ => none
    | _ => none

end

def nestingLimit : Nat := 127

def read? (s : String) : Option Json := do
  let cs := s.toList
  let (j, rest) ← value? (2 * cs.length + 2) nestingLimit cs
  if (skipBlanks rest).isEmpty then some j else none

end Json
end Espalier
