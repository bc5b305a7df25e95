import Mathlib.Data.Nat.Find
import ResourceQuery.Proofs.Text.Percent

set_option autoImplicit false

/-! # Occurrences of a text in a text

Where a text occurs first is found by going through the characters of the other (`Text.indexOf?`). The same
could be done with their bytes, and nothing else would be found: no text starts inside a character of another
(`not_isPrefix_within`), so that what occurs among the bytes occurs among the characters, after those whose
bytes stand before it (`exists_of_isPrefix_drop_encoded`). The empty text is the exception, as it occurs between
any two bytes; but it is found at the start.
-/

namespace ResourceQuery

namespace Text

variable {needle hay : List Char} {i : Nat}

/-! ## Among the characters -/

/-- The needle is found where it occurs and does not occur before. -/
theorem indexOf?_eq_some_iff :
    indexOf? needle hay = some i ↔ needle <+: hay.drop i ∧ ∀ j < i, ¬ needle <+: hay.drop j := by
  induction hay generalizing i with
  | nil =>
      simp only [indexOf?, List.drop_nil, List.prefix_nil, List.isEmpty_iff]
      by_cases hneedle : needle = []
      · rw [if_pos hneedle, Option.some.injEq]
        constructor
        · rintro rfl
          exact ⟨hneedle, fun j hj => absurd hj (Nat.not_lt_zero j)⟩
        · rintro ⟨-, hfirst⟩
          by_contra hi
          exact hfirst 0 (Nat.pos_of_ne_zero (Ne.symm hi)) hneedle
      · rw [if_neg hneedle]
        exact iff_of_false nofun fun h => hneedle h.1
  | cons c rest ih =>
      rw [indexOf?]
      by_cases hhere : needle.isPrefixOf (c :: rest) = true
      · rw [if_pos hhere, Option.some.injEq]
        rw [List.isPrefixOf_iff_prefix] at hhere
        constructor
        · rintro rfl
          exact ⟨hhere, fun j hj => absurd hj (Nat.not_lt_zero j)⟩
        · rintro ⟨-, hfirst⟩
          by_contra hi
          exact hfirst 0 (Nat.pos_of_ne_zero (Ne.symm hi)) hhere
      · rw [if_neg hhere, Option.map_eq_some_iff]
        rw [List.isPrefixOf_iff_prefix] at hhere
        constructor
        · rintro ⟨k, hk, rfl⟩
          obtain ⟨hoccurs, hfirst⟩ := ih.mp hk
          refine ⟨hoccurs, fun j hj => ?_⟩
          cases j with
          | zero => exact hhere
          | succ j => exact hfirst j (Nat.lt_of_succ_lt_succ hj)
        · rintro ⟨hoccurs, hfirst⟩
          cases i with
          | zero => exact absurd hoccurs hhere
          | succ k => exact ⟨k, ih.mpr ⟨hoccurs, fun j hj => hfirst (j + 1) (Nat.succ_lt_succ hj)⟩, rfl⟩

/-- The needle is not found if it occurs nowhere. -/
theorem indexOf?_eq_none_iff : indexOf? needle hay = none ↔ ∀ j, ¬ needle <+: hay.drop j := by
  constructor
  · intro hnone j hj
    have hex : ∃ j, needle <+: hay.drop j := ⟨j, hj⟩
    have hfound := indexOf?_eq_some_iff.mpr ⟨Nat.find_spec hex, fun k hk => Nat.find_min hex hk⟩
    rw [hnone] at hfound
    cases hfound
  · intro hnowhere
    cases hindex : indexOf? needle hay with
    | none => rfl
    | some i => exact absurd (indexOf?_eq_some_iff.mp hindex).1 (hnowhere i)

/-- The needle is found at the start exactly if it occurs there. -/
theorem indexOf?_eq_zero_iff : indexOf? needle hay = some 0 ↔ needle <+: hay := by
  rw [indexOf?_eq_some_iff, List.drop_zero]
  exact and_iff_left fun j hj => absurd hj (Nat.not_lt_zero j)

theorem le_length_of_indexOf? (h : indexOf? needle hay = some i) : i ≤ hay.length := by
  obtain ⟨hoccurs, hfirst⟩ := indexOf?_eq_some_iff.mp h
  by_contra hlong
  -- behind the end only the empty text occurs, and it occurs at the end too
  have hempty : needle = [] := by
    rwa [List.drop_eq_nil_of_le (Nat.le_of_not_le hlong), List.prefix_nil] at hoccurs
  exact hfirst hay.length (Nat.lt_of_not_le hlong) (hempty ▸ List.nil_prefix)

/-! ## Among the bytes -/

/-- The UTF-8 bytes of characters. -/
def encoded (cs : List Char) : List UInt8 :=
  cs.flatMap String.utf8EncodeChar

theorem encoded_cons (c : Char) (cs : List Char) : encoded (c :: cs) = String.utf8EncodeChar c ++ encoded cs :=
  List.flatMap_cons

theorem encoded_append (cs ds : List Char) : encoded (cs ++ ds) = encoded cs ++ encoded ds :=
  List.flatMap_append

theorem encoded_eq_nil_iff {cs : List Char} : encoded cs = [] ↔ cs = [] := by
  cases cs with
  | nil => exact iff_of_true rfl rfl
  | cons c cs => simp [encoded_cons]

theorem utf8Encode_eq_encoded (cs : List Char) : cs.utf8Encode.data.toList = encoded cs := by
  rw [List.utf8Encode, encoded]
  simp

theorem bytes_eq_encoded (s : String) : Percent.bytes s = encoded s.toList := by
  rw [← utf8Encode_eq_encoded, String.utf8Encode_toList, Percent.bytes]

/-- No text is encoded in more characters than bytes. -/
theorem length_le_encoded (cs : List Char) : cs.length ≤ (encoded cs).length := by
  induction cs with
  | nil => exact Nat.le_refl 0
  | cons c cs ih =>
      have hpos := c.utf8Size_pos
      rw [encoded_cons, List.length_append, String.length_utf8EncodeChar, List.length_cons]
      omega

/-- No character is encoded as the start of another. -/
theorem encoded_isPrefix_iff : encoded needle <+: encoded hay ↔ needle <+: hay := by
  constructor
  · rintro ⟨more, hmore⟩
    refine List.isPrefix_of_utf8Encode_append_eq_utf8Encode ⟨more.toArray⟩ ?_
    rw [ByteArray.ext_iff, ← Array.toList_inj, utf8Encode_eq_encoded, ← hmore, ← utf8Encode_eq_encoded]
    simp
  · rintro ⟨more, rfl⟩
    exact ⟨encoded more, (encoded_append needle more).symm⟩

theorem drop_encoded_take (hay : List Char) (i : Nat) :
    (encoded hay).drop (encoded (hay.take i)).length = encoded (hay.drop i) := by
  have hsplit : encoded hay = encoded (hay.take i) ++ encoded (hay.drop i) := by
    rw [← encoded_append, List.take_append_drop]
  rw [hsplit, List.drop_left]

/-- **No text starts inside a character.** -/
theorem not_isPrefix_within {c : Char} {more : List UInt8} {b : Nat} (hsome : needle ≠ []) (hpos : 0 < b)
    (hb : b < (String.utf8EncodeChar c).length) : ¬ encoded needle <+: (String.utf8EncodeChar c ++ more).drop b := by
  rintro ⟨tail, htail⟩
  cases needle with
  | nil => exact hsome rfl
  | cons d ds =>
      have hsize : 0 < (String.utf8EncodeChar d).length := by
        rw [String.length_utf8EncodeChar]
        exact d.utf8Size_pos
      -- the first byte of a character would be a later byte of one
      have hbyte : (String.utf8EncodeChar d)[0] = (String.utf8EncodeChar c)[b] := by
        have hhead := congrArg (·[0]?) htail
        simp only [encoded_cons, List.append_assoc, List.getElem?_drop, Nat.add_zero] at hhead
        rwa [List.getElem?_append_left hsize, List.getElem?_append_left hb, List.getElem?_eq_getElem hsize,
          List.getElem?_eq_getElem hb, Option.some.injEq] at hhead
      have hlead : (String.utf8EncodeChar d)[0].IsUTF8FirstByte :=
        UInt8.isUTF8FirstByte_getElem_utf8EncodeChar.mpr rfl
      rw [hbyte, UInt8.isUTF8FirstByte_getElem_utf8EncodeChar] at hlead
      exact hpos.ne' hlead

/-- **What occurs among the bytes occurs among the characters.** -/
theorem exists_of_isPrefix_drop_encoded {b : Nat} (hsome : needle ≠ [])
    (h : encoded needle <+: (encoded hay).drop b) :
    ∃ i, b = (encoded (hay.take i)).length ∧ needle <+: hay.drop i := by
  induction hay generalizing b with
  | nil =>
      rw [encoded_eq_nil_iff.mpr rfl, List.drop_nil, List.prefix_nil, encoded_eq_nil_iff] at h
      exact absurd h hsome
  | cons c rest ih =>
      rcases Nat.eq_zero_or_pos b with rfl | hpos
      · exact ⟨0, rfl, encoded_isPrefix_iff.mp h⟩
      · by_cases hb : b < (String.utf8EncodeChar c).length
        · rw [encoded_cons] at h
          exact absurd h (not_isPrefix_within hsome hpos hb)
        · rw [encoded_cons, List.drop_append, List.drop_eq_nil_of_le (Nat.le_of_not_lt hb), List.nil_append] at h
          obtain ⟨i, hi, hoccurs⟩ := ih h
          refine ⟨i + 1, ?_, hoccurs⟩
          rw [List.take_succ_cons, encoded_cons, List.length_append, ← hi]
          omega

/-- **The needle is found where its bytes occur first.** -/
theorem first_of_indexOf? (h : indexOf? needle hay = some i) :
    encoded needle <+: encoded (hay.drop i) ∧
      ∀ b < (encoded (hay.take i)).length, ¬ encoded needle <+: (encoded hay).drop b := by
  obtain ⟨hoccurs, hfirst⟩ := indexOf?_eq_some_iff.mp h
  refine ⟨encoded_isPrefix_iff.mpr hoccurs, fun b hb hbytes => ?_⟩
  by_cases hsome : needle = []
  · -- the empty needle is found at the start, before which there is no byte
    have hi : i = 0 := by
      by_contra hi
      exact hfirst 0 (Nat.pos_of_ne_zero hi) (hsome ▸ List.nil_prefix)
    rw [hi] at hb
    exact Nat.not_lt_zero b hb
  · obtain ⟨j, rfl, hj⟩ := exists_of_isPrefix_drop_encoded hsome hbytes
    refine hfirst j ?_ hj
    by_contra hle
    have htake : hay.take i <+: hay.take j := List.take_prefix_take_left (Nat.le_of_not_lt hle)
    exact absurd (encoded_isPrefix_iff.mpr htake).length_le (Nat.not_le_of_lt hb)

/-- Where the needle is not found, its bytes do not occur. -/
theorem nowhere_of_indexOf? (h : indexOf? needle hay = none) (b : Nat) :
    ¬ encoded needle <+: (encoded hay).drop b := by
  intro hbytes
  have hnowhere := indexOf?_eq_none_iff.mp h
  have hsome : needle ≠ [] := by
    rintro rfl
    exact hnowhere 0 List.nil_prefix
  obtain ⟨j, -, hj⟩ := exists_of_isPrefix_drop_encoded hsome hbytes
  exact hnowhere j hj

theorem encoded_isSuffix_iff : encoded needle <:+ encoded hay ↔ needle <:+ hay := by
  constructor
  · rintro ⟨lead, hlead⟩
    by_cases hsome : needle = []
    · exact hsome ▸ List.nil_suffix
    · have hdrop : (encoded hay).drop lead.length = encoded needle := by rw [← hlead, List.drop_left]
      have hprefix : encoded needle <+: (encoded hay).drop lead.length := hdrop.symm ▸ List.prefix_rfl
      obtain ⟨i, hi, more, hmore⟩ := exists_of_isPrefix_drop_encoded hsome hprefix
      -- nothing follows the needle, as nothing follows its bytes
      have hbytes : encoded needle = encoded needle ++ encoded more := by
        rw [← encoded_append, hmore, ← drop_encoded_take, ← hi, hdrop]
      have hnone : more = [] := encoded_eq_nil_iff.mp (List.self_eq_append_right.mp hbytes)
      rw [hnone, List.append_nil] at hmore
      exact hmore ▸ List.drop_suffix i hay
  · rintro ⟨lead, rfl⟩
    exact ⟨encoded lead, (encoded_append lead needle).symm⟩

end Text

end ResourceQuery
