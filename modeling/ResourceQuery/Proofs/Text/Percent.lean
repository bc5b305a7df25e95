import ResourceQuery.Text.Percent
import Mathlib.Tactic.IntervalCases

set_option autoImplicit false

/-! # Percent-encoding read back

An encoded text is ASCII, and each of its characters is one that is kept or a part of an escape
(`mem_encode`). So its bytes are those of its pieces in order, and decoding takes them up piece by piece:
an escape, or a kept character, which is no percent sign. Whatever the set of kept characters is otherwise,
a text that was encoded is decoded to itself (`decode?_encode`).
-/

namespace ResourceQuery

namespace Percent

variable {keep : Char → Bool}

/-! ## ASCII as bytes -/

/-- The byte of an ASCII character. -/
def byteOf (c : Char) : UInt8 :=
  UInt8.ofNat c.toNat

theorem utf8EncodeChar_ascii {c : Char} (hc : c.toNat < 128) : String.utf8EncodeChar c = [byteOf c] := by
  have hle : c.val.toNat ≤ 127 := Nat.lt_succ_iff.1 hc
  simp only [String.utf8EncodeChar, hle, if_true]
  rfl

theorem bytes_ofList {cs : List Char} (hascii : ∀ c ∈ cs, c.toNat < 128) :
    bytes (String.ofList cs) = cs.map byteOf := by
  have hflat : cs.flatMap String.utf8EncodeChar = cs.map byteOf := by
    induction cs with
    | nil => rfl
    | cons c rest ih =>
        rw [List.flatMap_cons, utf8EncodeChar_ascii (hascii c List.mem_cons_self),
          ih fun d hd => hascii d (List.mem_cons_of_mem _ hd), List.map_cons, List.singleton_append]
  rw [bytes, String.toByteArray_ofList, List.utf8Encode, hflat]
  simp

/-! ## One byte -/

/-- What an escape is written with. -/
def escapeChars : List Char :=
  ['%', '0', '1', '2', '3', '4', '5', '6', '7', '8', '9', 'A', 'B', 'C', 'D', 'E', 'F']

theorem hexDigit_spec {n : Nat} (hn : n < 16) :
    hexDigit n ∈ escapeChars ∧ hexValue? (byteOf (hexDigit n)) = some n := by
  interval_cases n <;> decide

/-- A byte is written as itself, or as an escape. -/
theorem encodeByte_cases (keep : Char → Bool) (b : UInt8) :
    (∃ c : Char, c.toNat < 128 ∧ keep c = true ∧ byteOf c = b ∧ encodeByte keep b = [c]) ∨
      encodeByte keep b = ['%', hexDigit (b.toNat / 16), hexDigit (b.toNat % 16)] := by
  unfold encodeByte
  split
  · rename_i hkept
    rw [Bool.and_eq_true, decide_eq_true_eq] at hkept
    have hvalid : b.toNat.isValidChar := Or.inl (by omega)
    have hcode : (Char.ofNat b.toNat).toNat = b.toNat := by
      rw [Char.ofNat, dif_pos hvalid]
      rfl
    refine Or.inl ⟨Char.ofNat b.toNat, by omega, hkept.2, ?_, rfl⟩
    rw [byteOf, hcode, UInt8.ofNat_toNat]
  · exact Or.inr rfl

theorem mem_encodeByte {b : UInt8} {c : Char} (hc : c ∈ encodeByte keep b) :
    c.toNat < 128 ∧ (keep c = true ∨ c ∈ escapeChars) := by
  have hb : b.toNat < 256 := b.toNat_lt
  rcases encodeByte_cases keep b with ⟨d, hascii, hkeep, -, heq⟩ | heq
  · rw [heq, List.mem_singleton] at hc
    exact hc ▸ ⟨hascii, Or.inl hkeep⟩
  · have hescape : c ∈ escapeChars := by
      rw [heq] at hc
      rcases List.mem_cons.1 hc with rfl | hc
      · decide
      rcases List.mem_cons.1 hc with rfl | hc
      · exact (hexDigit_spec (by omega)).1
      · exact List.mem_singleton.1 hc ▸ (hexDigit_spec (by omega)).1
    have hascii : escapeChars.all (fun d => d.toNat < 128) = true := by decide
    exact ⟨of_decide_eq_true (List.all_eq_true.1 hascii c hescape), Or.inr hescape⟩

theorem decodeBytes_cons {b : UInt8} (hb : b ≠ 37) (rest : List UInt8) :
    decodeBytes (b :: rest) = b :: decodeBytes rest := by
  rw [decodeBytes]
  rintro hi lo more rfl
  exact absurd rfl hb

theorem decodeBytes_encodeByte (hpercent : keep '%' = false) (b : UInt8) (rest : List UInt8) :
    decodeBytes ((encodeByte keep b).map byteOf ++ rest) = b :: decodeBytes rest := by
  have hb : b.toNat < 256 := b.toNat_lt
  rcases encodeByte_cases keep b with ⟨c, hascii, hkeep, hbyte, heq⟩ | heq
  · rw [heq, List.map_singleton, List.singleton_append, hbyte]
    refine decodeBytes_cons ?_ rest
    -- the byte of the percent sign would be kept
    rintro rfl
    have hcode : c.toNat = 37 := by
      have htoNat : c.toNat % 256 = 37 := congrArg UInt8.toNat hbyte
      omega
    have hc : c = '%' := by
      rw [← Char.ofNat_toNat c, hcode]
    rw [hc, hpercent] at hkeep
    cases hkeep
  · have hhigh := (hexDigit_spec (n := b.toNat / 16) (by omega)).2
    have hlow := (hexDigit_spec (n := b.toNat % 16) (by omega)).2
    have hvalue : 16 * (b.toNat / 16) + b.toNat % 16 = b.toNat := Nat.div_add_mod _ _
    have hsign : byteOf '%' = 37 := by decide
    rw [heq, List.map_cons, List.map_cons, List.map_singleton, hsign]
    simp only [List.cons_append, List.nil_append, decodeBytes, hhigh, hlow, hvalue, UInt8.ofNat_toNat]

/-! ## Texts -/

theorem toList_encode (keep : Char → Bool) (s : String) :
    (encode keep s).toList = (bytes s).flatMap (encodeByte keep) := by
  rw [encode, String.toList_ofList]

theorem mem_encode {s : String} {c : Char} (hc : c ∈ (encode keep s).toList) :
    c.toNat < 128 ∧ (keep c = true ∨ c ∈ escapeChars) := by
  rw [toList_encode, List.mem_flatMap] at hc
  obtain ⟨b, -, hc⟩ := hc
  exact mem_encodeByte hc

/-- A character that is neither kept nor a part of escapes does not occur in an encoded text. -/
theorem not_mem_encode {c : Char} (hkeep : keep c = false) (hescape : c ∉ escapeChars) (s : String) :
    c ∉ (encode keep s).toList := by
  intro hc
  rcases (mem_encode hc).2 with hkept | hpart
  · rw [hkeep] at hkept
    cases hkept
  · exact hescape hpart

theorem decodeBytes_encode (hpercent : keep '%' = false) (bs : List UInt8) :
    decodeBytes ((bs.flatMap (encodeByte keep)).map byteOf) = bs := by
  induction bs with
  | nil => rfl
  | cons b rest ih => rw [List.flatMap_cons, List.map_append, decodeBytes_encodeByte hpercent, ih]

/-- **A text that was encoded is decoded to itself**, if the percent sign is not kept. -/
theorem decode?_encode (hpercent : keep '%' = false) (s : String) :
    decode? (encode keep s) = some s := by
  have hbytes : bytes (encode keep s) = ((bytes s).flatMap (encodeByte keep)).map byteOf := by
    rw [← toList_encode]
    conv_lhs => rw [← String.ofList_toList (s := encode keep s)]
    exact bytes_ofList fun c hc => (mem_encode hc).1
  have hback : (⟨(decodeBytes (bytes (encode keep s))).toArray⟩ : ByteArray) = s.toByteArray := by
    rw [hbytes, decodeBytes_encode hpercent]
    simp [bytes]
  rw [decode?, hback, String.fromUTF8?, dif_pos s.isValidUTF8]
  rfl

end Percent

end ResourceQuery
