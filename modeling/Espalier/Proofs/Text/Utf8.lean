import Espalier.Proofs.Text.Percent
import Espalier.Text.Utf8

/-!
# Texts read from their bytes

The bytes of a text are read as that text: no character is replaced, and none is read for another.
So a name or value in the query of a data source name is read as what it stands for.
-/

namespace Espalier
namespace Utf8

theorem toNat_ofNat {n : Nat} (h : n < 256) : (UInt8.ofNat n).toNat = n :=
  UInt8.toNat_ofNat_of_lt' h

/-- A byte within its bounds goes on with a character. -/
theorem readFrom_next {after low high value n : Nat} (hn : n < 256) (hlow : low ≤ n)
    (hhigh : n ≤ high) (rest : List UInt8) :
    readFrom (some ⟨after, low, high, value⟩) (UInt8.ofNat n :: rest) =
      match after with
      | 0 => Char.ofNat (64 * value + (n - 0x80)) :: readFrom none rest
      | after + 1 => readFrom (some ⟨after, 0x80, 0xBF, 64 * value + (n - 0x80)⟩) rest := by
  rw [readFrom, toNat_ofNat hn]
  exact if_pos ⟨hlow, hhigh⟩

/-- An octet that opens a sequence is waited on. -/
theorem readFrom_start {p : Pending} {n : Nat} (hn : n < 256) (h : pending? n = some p)
    (rest : List UInt8) :
    readFrom none (UInt8.ofNat n :: rest) = readFrom (some p) rest := by
  rw [readFrom, toNat_ofNat hn, h]

section

variable {v : Nat} (rest : List UInt8)

/-- An octet of ASCII is a character. -/
theorem readFrom_one (h : v < 0x80) :
    readFrom none (UInt8.ofNat v :: rest) = Char.ofNat v :: readFrom none rest := by
  have hnone : pending? v = none := by
    rw [pending?, if_neg (by omega), if_neg (by omega), if_neg (by omega)]
  rw [readFrom, toNat_ofNat (by omega), hnone]
  dsimp only
  rw [if_pos h]

/-- Two octets are a character of eleven bits. -/
theorem readFrom_two (hlow : 0x80 ≤ v) (hhigh : v < 0x800) :
    readFrom none (UInt8.ofNat (v / 64 % 32 + 192) :: UInt8.ofNat (v % 64 + 128) :: rest) =
      Char.ofNat v :: readFrom none rest := by
  have hfirst : pending? (v / 64 % 32 + 192) = some ⟨0, 0x80, 0xBF, v / 64⟩ := by
    have hpart : v / 64 % 32 + 192 - 0xC0 = v / 64 := by omega
    rw [pending?, if_pos (by omega), hpart]
  have hvalue : 64 * (v / 64) + (v % 64 + 128 - 0x80) = v := by omega
  rw [readFrom_start (by omega) hfirst, readFrom_next (by omega) (by omega) (by omega)]
  dsimp only
  rw [hvalue]

/-- The second byte is within bounds that keep out what is too short and surrogates. -/
theorem readFrom_three (hlow : 0x800 ≤ v) (hhigh : v < 0x10000) (hvalid : v < 0xD800 ∨ 0xDFFF < v) :
    readFrom none (UInt8.ofNat (v / 4096 % 16 + 224) :: UInt8.ofNat (v / 64 % 64 + 128) ::
      UInt8.ofNat (v % 64 + 128) :: rest) = Char.ofNat v :: readFrom none rest := by
  have hfirst : pending? (v / 4096 % 16 + 224) = some ⟨1,
      if v / 4096 % 16 + 224 = 0xE0 then 0xA0 else 0x80,
      if v / 4096 % 16 + 224 = 0xED then 0x9F else 0xBF, v / 4096⟩ := by
    have hpart : v / 4096 % 16 + 224 - 0xE0 = v / 4096 := by omega
    rw [pending?, if_neg (by omega), if_pos (by omega), hpart]
  have hvalue :
      64 * (64 * (v / 4096) + (v / 64 % 64 + 128 - 0x80)) + (v % 64 + 128 - 0x80) = v := by
    omega
  rw [readFrom_start (by omega) hfirst,
    readFrom_next (by omega) (by split <;> omega) (by split <;> omega)]
  dsimp only
  rw [readFrom_next (by omega) (by omega) (by omega)]
  dsimp only
  rw [hvalue]

/-- The second byte is within bounds that keep out what is too short and what is past the last
character. -/
theorem readFrom_four (hlow : 0x10000 ≤ v) (hhigh : v < 0x110000) :
    readFrom none (UInt8.ofNat (v / 262144 % 8 + 240) :: UInt8.ofNat (v / 4096 % 64 + 128) ::
      UInt8.ofNat (v / 64 % 64 + 128) :: UInt8.ofNat (v % 64 + 128) :: rest) =
      Char.ofNat v :: readFrom none rest := by
  have hfirst : pending? (v / 262144 % 8 + 240) = some ⟨2,
      if v / 262144 % 8 + 240 = 0xF0 then 0x90 else 0x80,
      if v / 262144 % 8 + 240 = 0xF4 then 0x8F else 0xBF, v / 262144⟩ := by
    have hpart : v / 262144 % 8 + 240 - 0xF0 = v / 262144 := by omega
    rw [pending?, if_neg (by omega), if_neg (by omega), if_pos (by omega), hpart]
  have hvalue : 64 * (64 * (64 * (v / 262144) + (v / 4096 % 64 + 128 - 0x80)) +
      (v / 64 % 64 + 128 - 0x80)) + (v % 64 + 128 - 0x80) = v := by omega
  rw [readFrom_start (by omega) hfirst,
    readFrom_next (by omega) (by split <;> omega) (by split <;> omega)]
  dsimp only
  rw [readFrom_next (by omega) (by omega) (by omega)]
  dsimp only
  rw [readFrom_next (by omega) (by omega) (by omega)]
  dsimp only
  rw [hvalue]

end

/-- The bytes of a character are read as that character. -/
theorem readFrom_char (c : Char) (rest : List UInt8) :
    readFrom none (String.utf8EncodeChar c ++ rest) = c :: readFrom none rest := by
  have hc : Char.ofNat c.val.toNat = c := Char.ofNat_toNat c
  have hvalid : c.val.toNat < 0xD800 ∨ 0xDFFF < c.val.toNat ∧ c.val.toNat < 0x110000 := c.valid
  rw [String.utf8EncodeChar]
  generalize c.val.toNat = v at hc hvalid
  rw [← hc]
  -- One case for each number of bytes.
  split
  · exact readFrom_one rest (by omega)
  · split
    · exact readFrom_two rest (by omega) (by omega)
    · split
      · exact readFrom_three rest (by omega) (by omega) (by omega)
      · exact readFrom_four rest (by omega) (by omega)

/-- The bytes of a text are read as that text. -/
theorem read_bytes (cs : List Char) : readFrom none (Percent.bytes cs) = cs := by
  induction cs with
  | nil => rfl
  | cons c cs ih => rw [Percent.bytes, List.flatMap_cons, readFrom_char, ← Percent.bytes, ih]

/-- Where a name or value of a query stands for a text, that text is read. -/
theorem decodeQuery_eq {s r : String} (h : Percent.decode? (Percent.withBlanks s) = some r) :
    Percent.decodeQuery s = r := by
  rw [Percent.decodeQuery, Percent.toList_toUTF8, Percent.decode?_eq_some.1 h, read, read_bytes,
    String.ofList_toList]

end Utf8
end Espalier
