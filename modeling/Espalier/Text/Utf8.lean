/-!
# Bytes read as text

Bytes that should be UTF-8 but may not be.  Where a character breaks off, and where a byte starts
none, the replacement character is read in their place.
-/

namespace Espalier
namespace Utf8

/-- A character of which bytes are still to come. -/
structure Pending where
  /-- How many bytes are to come after the next one. -/
  after : Nat
  /-- The bounds of the next byte. -/
  low : Nat
  high : Nat
  /-- What the bytes so far make up. -/
  value : Nat

/-- The character that a byte starts, if it is one of several bytes.  Bounds on the second byte keep
out surrogates, numbers past the last character and characters written longer than they need. -/
def pending? (b : Nat) : Option Pending :=
  if 0xC2 ≤ b ∧ b ≤ 0xDF then some ⟨0, 0x80, 0xBF, b - 0xC0⟩
  else if 0xE0 ≤ b ∧ b ≤ 0xEF then
    some ⟨1, if b = 0xE0 then 0xA0 else 0x80, if b = 0xED then 0x9F else 0xBF, b - 0xE0⟩
  else if 0xF0 ≤ b ∧ b ≤ 0xF4 then
    some ⟨2, if b = 0xF0 then 0x90 else 0x80, if b = 0xF4 then 0x8F else 0xBF, b - 0xF0⟩
  else none

def replacement : Char := '\uFFFD'

/-- Reads bytes, after those of a character that is not complete. -/
def readFrom : Option Pending → List UInt8 → List Char
  | none, [] => []
  | some _, [] => [replacement]
  | state, b :: rest =>
    let n := b.toNat
    let start :=
      match pending? n with
      | some p => readFrom (some p) rest
      | none => (if n < 0x80 then Char.ofNat n else replacement) :: readFrom none rest
    match state with
    | none => start
    | some p =>
      if p.low ≤ n ∧ n ≤ p.high then
        let value := 64 * p.value + (n - 0x80)
        match p.after with
        | 0 => Char.ofNat value :: readFrom none rest
        | after + 1 => readFrom (some ⟨after, 0x80, 0xBF, value⟩) rest
      -- A byte that does not go on with the character may start the next one.
      else replacement :: start

def read (bytes : List UInt8) : String :=
  String.ofList (readFrom none bytes)

end Utf8
end Espalier
