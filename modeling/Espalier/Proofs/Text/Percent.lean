import Espalier.Text.Percent
import Mathlib.Data.List.Basic
import Mathlib.Data.String.Basic

/-!
# Texts with and without percent codes

A percent code is a percent sign before two hexadecimal digits.  A text without codes stands for
itself; a code makes what a text stands for shorter, since three bytes become one.
-/

namespace Espalier
namespace Percent

def isHex (c : Char) : Bool :=
  (Ascii.digitValue? 16 c).isSome

/-- Somewhere a percent sign stands before two hexadecimal digits. -/
def HasCode (cs : List Char) : Prop :=
  ∃ before high low after, cs = before ++ '%' :: high :: low :: after ∧
    isHex high = true ∧ isHex low = true

/-! ## Bytes of a text -/

def bytes (cs : List Char) : List UInt8 :=
  cs.flatMap String.utf8EncodeChar

theorem toList_loop (bs : ByteArray) (i : Nat) (done : List UInt8) :
    ByteArray.toList.loop bs i done = done.reverse ++ bs.data.toList.drop i := by
  fun_induction ByteArray.toList.loop bs i done with
  | case1 i done hlt ih =>
    have hi : i < bs.data.toList.length := by simpa using hlt
    have hget : bs.get! i = bs.data.toList[i] := by
      rw [ByteArray.get!, Array.getElem_toList]
      exact getElem!_pos bs.data i (by simpa using hlt)
    rw [ih, List.drop_eq_getElem_cons hi, hget]
    simp
  | case2 i done hge =>
    have hlength : bs.data.toList.length ≤ i := by simpa using hge
    rw [List.drop_eq_nil_of_le hlength, List.append_nil]

theorem toUTF8_eq (s : String) : s.toUTF8 = (bytes s.toList).toByteArray :=
  String.utf8Encode_toList.symm

theorem toList_toUTF8 (s : String) : s.toUTF8.toList = bytes s.toList := by
  rw [ByteArray.toList, toList_loop, toUTF8_eq, List.data_toByteArray]
  rfl

/-- A text stands for another if its bytes, with the codes replaced, are those of the other. -/
theorem decode?_eq_some {s r : String} :
    decode? s = some r ↔ decodeBytes (bytes s.toList) = bytes r.toList := by
  have hbytes : ∀ l : List UInt8, (⟨l.toArray⟩ : ByteArray) = l.toByteArray :=
    fun l => ByteArray.ext List.data_toByteArray.symm
  have hinjective : ∀ {l l' : List UInt8}, l.toByteArray = l'.toByteArray ↔ l = l' := by
    intro l l'
    constructor
    · intro h
      rw [← List.toList_data_toByteArray (l := l), h, List.toList_data_toByteArray]
    · rintro rfl
      rfl
  rw [decode?, toList_toUTF8, hbytes, String.fromUTF8?, ← hinjective, ← toUTF8_eq]
  constructor
  · intro h
    split at h
    · exact congrArg String.toUTF8 (Option.some.inj h)
    · cases h
  · intro h
    have hvalid : (decodeBytes (bytes s.toList)).toByteArray.IsValidUTF8 := h ▸ r.isValidUTF8
    rw [dif_pos hvalid]
    exact congrArg some (String.toByteArray_inj.1 h)

/-! ## Codes and bytes -/

theorem hexValue?_of_le {b : UInt8} (h : 128 ≤ b.toNat) : hexValue? b = none := by
  have hall : ∀ n < 256, 128 ≤ n → Ascii.digitValue? 16 (Char.ofNat n) = none := by
    decide +kernel
  exact hall b.toNat b.toNat_lt h

/-- An octet other than the sign stays as it is. -/
theorem decodeBytes_cons {b : UInt8} (h : b ≠ 37) (bs : List UInt8) :
    decodeBytes (b :: bs) = b :: decodeBytes bs := by
  rcases bs with _ | ⟨high, _ | ⟨low, rest⟩⟩
  · rfl
  · rfl
  · rw [decodeBytes]
    cases hexValue? high <;> cases hexValue? low <;> simp [h]

/-- Decoding makes nothing longer. -/
theorem length_decodeBytes_le (bs : List UInt8) : (decodeBytes bs).length ≤ bs.length := by
  fun_induction decodeBytes bs with
  | case1 high low rest x hx y hy ih =>
    simp only [List.length_cons]
    omega
  | case2 b high low rest x hx y hy hb ih => simpa using ih
  | case3 b high low rest hnone ih => simpa using ih
  | case4 bs hshort => exact Nat.le_refl _

/-- A character of seven bits is one byte, and every other is made of bytes above those. -/
theorem utf8EncodeChar_cases (c : Char) :
    (c.toNat < 128 ∧ String.utf8EncodeChar c = [UInt8.ofNat c.toNat]) ∨
      (128 ≤ c.toNat ∧ ∀ b ∈ String.utf8EncodeChar c, 128 ≤ b.toNat) := by
  have hbyte : ∀ n, (UInt8.ofNat n).toNat = n % 256 := fun n => UInt8.toNat_ofNat'
  unfold String.utf8EncodeChar
  dsimp only
  change (c.val.toNat < 128 ∧ _) ∨ (128 ≤ c.val.toNat ∧ _)
  split
  · exact .inl ⟨by omega, rfl⟩
  · refine .inr ⟨by omega, ?_⟩
    split
    · simp only [List.forall_mem_cons, hbyte]
      exact ⟨by omega, by omega, nofun⟩
    · split
      · simp only [List.forall_mem_cons, hbyte]
        exact ⟨by omega, by omega, by omega, nofun⟩
      · simp only [List.forall_mem_cons, hbyte]
        exact ⟨by omega, by omega, by omega, by omega, nofun⟩

theorem lt_of_isHex {c : Char} (h : isHex c = true) : c.toNat < 128 := by
  have hnat : c.toNat = c.val.toNat := rfl
  have hle : ∀ {d e : Char}, d ≤ e → d.toNat ≤ e.toNat := fun hle => hle
  rw [isHex, Ascii.digitValue?] at h
  split at h
  · rename_i hdigit
    simp only [Char.isDigit, Bool.and_eq_true, decide_eq_true_eq, UInt32.le_iff_toNat_le] at hdigit
    exact hnat ▸ hdigit.2.trans_lt (by decide)
  · split at h
    · rename_i hletter
      exact (hle hletter.2).trans_lt (by decide)
    · split at h
      · rename_i hletter
        exact (hle hletter.2).trans_lt (by decide)
      · cases h

/-- A character of ASCII is a digit of a code just if its octet is. -/
theorem isSome_hexValue? {c : Char} (h : c.toNat < 128) :
    (hexValue? (UInt8.ofNat c.toNat)).isSome = isHex c := by
  have hbyte : (UInt8.ofNat c.toNat).toNat = c.toNat := by
    rw [UInt8.toNat_ofNat']
    omega
  rw [hexValue?, hbyte, Char.ofNat_toNat, isHex]

/-- A digit of a code is one byte. -/
theorem utf8EncodeChar_of_isHex {c : Char} (h : isHex c = true) :
    ∃ b, String.utf8EncodeChar c = [b] ∧ (hexValue? b).isSome = true := by
  rcases utf8EncodeChar_cases c with ⟨hlt, hc⟩ | ⟨hge, -⟩
  · exact ⟨_, hc, by rw [isSome_hexValue? hlt, h]⟩
  · have hlt := lt_of_isHex h
    omega

theorem length_utf8EncodeChar_pos (c : Char) : 0 < (String.utf8EncodeChar c).length :=
  List.length_pos_iff.2 String.utf8EncodeChar_ne_nil

theorem bytes_cons (c : Char) (cs : List Char) :
    bytes (c :: cs) = String.utf8EncodeChar c ++ bytes cs :=
  List.flatMap_cons ..

/-- A text with some of its characters left out has fewer bytes. -/
theorem bytes_sublist {cs ds : List Char} (h : cs.Sublist ds) :
    (bytes cs).length ≤ (bytes ds).length ∧
      ((bytes ds).length ≤ (bytes cs).length → cs = ds) := by
  induction h with
  | slnil => exact ⟨Nat.le_refl _, fun _ => rfl⟩
  | cons c h ih =>
    have hpos := length_utf8EncodeChar_pos c
    rw [bytes_cons, List.length_append]
    exact ⟨by omega, fun hle => by omega⟩
  | cons_cons c h ih =>
    rw [bytes_cons, bytes_cons, List.length_append, List.length_append]
    exact ⟨by omega, fun hle => by rw [ih.2 (by omega)]⟩

/-- The first byte of a text is a digit of a code only if its first character is. -/
theorem isHex_of_bytes {cs : List Char} {b : UInt8} {bs : List UInt8} (h : bytes cs = b :: bs)
    (hb : (hexValue? b).isSome = true) :
    ∃ c rest, cs = c :: rest ∧ isHex c = true ∧ bytes rest = bs := by
  rcases cs with _ | ⟨c, rest⟩
  · cases h
  · rw [bytes_cons] at h
    rcases utf8EncodeChar_cases c with ⟨hlt, hc⟩ | ⟨-, hc⟩
    · rw [hc, List.singleton_append, List.cons.injEq] at h
      refine ⟨c, rest, rfl, ?_, h.2⟩
      rw [← isSome_hexValue? hlt, h.1, hb]
    · have hmem : b ∈ String.utf8EncodeChar c := by
        cases hbytes : String.utf8EncodeChar c with
        | nil => exact absurd hbytes String.utf8EncodeChar_ne_nil
        | cons d ds =>
          rw [hbytes, List.cons_append, List.cons.injEq] at h
          exact h.1 ▸ List.mem_cons_self
      rw [hexValue?_of_le (hc b hmem)] at hb
      cases hb

def OpensCode (cs : List Char) : Prop :=
  ∃ high low after, cs = '%' :: high :: low :: after ∧ isHex high = true ∧ isHex low = true

theorem hasCode_cons {c : Char} {cs : List Char} :
    HasCode (c :: cs) ↔ OpensCode (c :: cs) ∨ HasCode cs := by
  constructor
  · rintro ⟨_ | ⟨d, before⟩, high, low, after, heq, hhigh, hlow⟩
    · exact .inl ⟨high, low, after, heq, hhigh, hlow⟩
    · cases heq
      exact .inr ⟨before, high, low, after, rfl, hhigh, hlow⟩
  · rintro (⟨high, low, after, heq, hhigh, hlow⟩ | ⟨before, high, low, after, rfl, hhigh, hlow⟩)
    · exact ⟨[], high, low, after, heq, hhigh, hlow⟩
    · exact ⟨c :: before, high, low, after, rfl, hhigh, hlow⟩

/-- Bytes other than percent signs stay before what stands for the rest. -/
theorem decodeBytes_append {bs : List UInt8} (h : ∀ b ∈ bs, b ≠ 37) (rest : List UInt8) :
    decodeBytes (bs ++ rest) = bs ++ decodeBytes rest := by
  induction bs with
  | nil => rfl
  | cons b bs ih =>
    rw [List.forall_mem_cons] at h
    rw [List.cons_append, decodeBytes_cons h.1, ih h.2, List.cons_append]

/-- So does every character that is no percent sign. -/
theorem decodeBytes_char {c : Char} (hc : c ≠ '%') (rest : List UInt8) :
    decodeBytes (String.utf8EncodeChar c ++ rest) =
      String.utf8EncodeChar c ++ decodeBytes rest := by
  refine decodeBytes_append (fun b hb hpercent => ?_) rest
  subst hpercent
  rcases utf8EncodeChar_cases c with ⟨hlt, hbytes⟩ | ⟨-, hbytes⟩
  · rw [hbytes, List.mem_singleton] at hb
    have hnat := congrArg UInt8.toNat hb
    rw [UInt8.toNat_ofNat', Nat.mod_eq_of_lt (by omega)] at hnat
    exact hc (Char.toNat_inj.1 hnat.symm)
  · exact absurd (hbytes 37 hb) (by decide)

/-- A percent sign stands for itself if no two digits follow. -/
theorem decodeBytes_percent {bs : List UInt8}
    (h : ∀ high low rest, bs = high :: low :: rest → (hexValue? high).isSome = true →
      (hexValue? low).isSome = false) :
    decodeBytes (37 :: bs) = 37 :: decodeBytes bs := by
  rcases bs with _ | ⟨high, _ | ⟨low, rest⟩⟩
  · rfl
  · rfl
  · have hnot := h high low rest rfl
    rw [decodeBytes]
    cases hhigh : hexValue? high with
    | none => rfl
    | some x =>
      have hlow : hexValue? low = none := by simpa using hnot (by rw [hhigh]; rfl)
      rw [hlow]

/-- A text that opens with a code stands for something shorter. -/
theorem length_decodeBytes_code {high low : Char} (hhigh : isHex high = true)
    (hlow : isHex low = true) (cs : List Char) :
    (decodeBytes (bytes ('%' :: high :: low :: cs))).length <
      (bytes ('%' :: high :: low :: cs)).length := by
  obtain ⟨h, hh, hsomeh⟩ := utf8EncodeChar_of_isHex hhigh
  obtain ⟨l, hl, hsomel⟩ := utf8EncodeChar_of_isHex hlow
  obtain ⟨x, hx⟩ := Option.isSome_iff_exists.1 hsomeh
  obtain ⟨y, hy⟩ := Option.isSome_iff_exists.1 hsomel
  have hbytes : bytes ('%' :: high :: low :: cs) = 37 :: h :: l :: bytes cs := by
    rw [bytes_cons, bytes_cons, bytes_cons, hh, hl]
    rfl
  have hshort := length_decodeBytes_le (bytes cs)
  rw [hbytes, decodeBytes, hx, hy]
  simp only [if_true, List.length_cons]
  omega

/-- A character that opens no code stands for itself. -/
theorem decodeBytes_first {c : Char} {cs : List Char} (h : ¬ OpensCode (c :: cs)) :
    decodeBytes (bytes (c :: cs)) = String.utf8EncodeChar c ++ decodeBytes (bytes cs) := by
  rw [bytes_cons]
  by_cases hc : c = '%'
  · subst hc
    refine decodeBytes_percent fun first second rest hbs hfirst => ?_
    obtain ⟨high, others, rfl, hhigh, hothers⟩ := isHex_of_bytes hbs hfirst
    by_contra hsecond
    rw [Bool.not_eq_false] at hsecond
    obtain ⟨low, after, rfl, hlow, -⟩ := isHex_of_bytes hothers hsecond
    exact h ⟨high, low, after, rfl, hhigh, hlow⟩
  · exact decodeBytes_char hc _

/-- A text without codes stands for itself, one with codes for something shorter. -/
theorem decodeBytes_bytes (cs : List Char) :
    (HasCode cs ∧ (decodeBytes (bytes cs)).length < (bytes cs).length) ∨
      (¬ HasCode cs ∧ decodeBytes (bytes cs) = bytes cs) := by
  induction cs with
  | nil =>
    refine .inr ⟨?_, rfl⟩
    rintro ⟨_ | _, _, _, _, heq, -, -⟩ <;> cases heq
  | cons c cs ih =>
    rw [hasCode_cons]
    by_cases hcode : OpensCode (c :: cs)
    · refine .inl ⟨.inl hcode, ?_⟩
      obtain ⟨high, low, after, heq, hhigh, hlow⟩ := hcode
      rw [heq]
      exact length_decodeBytes_code hhigh hlow after
    · rw [decodeBytes_first hcode, bytes_cons]
      rcases ih with ⟨hhas, hlt⟩ | ⟨hnot, heq⟩
      · refine .inl ⟨.inr hhas, ?_⟩
        rw [List.length_append, List.length_append]
        omega
      · exact .inr ⟨not_or.2 ⟨hcode, hnot⟩, by rw [heq]⟩

/-- A text without codes is decoded to itself. -/
theorem decode?_of_not_hasCode {s : String} (h : ¬ HasCode s.toList) : decode? s = some s := by
  rw [decode?_eq_some]
  rcases decodeBytes_bytes s.toList with ⟨hcode, -⟩ | ⟨-, heq⟩
  · exact absurd hcode h
  · exact heq

/-- What a text stands for is as long in bytes as the text just if there are no codes. -/
theorem not_hasCode_of_decode? {s r : String} (h : decode? s = some r)
    (hlength : (bytes s.toList).length ≤ (bytes r.toList).length) : ¬ HasCode s.toList := by
  rw [← decode?_eq_some.1 h] at hlength
  rcases decodeBytes_bytes s.toList with ⟨-, hlt⟩ | ⟨hnot, -⟩
  · omega
  · exact hnot

/-- Decoding makes no text longer. -/
theorem length_bytes_le_of_decode? {s r : String} (h : decode? s = some r) :
    (bytes r.toList).length ≤ (bytes s.toList).length := by
  rw [← decode?_eq_some.1 h]
  exact length_decodeBytes_le _

end Percent
end Espalier
