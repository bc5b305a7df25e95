import ResourceQuery.Proofs.Expr.Spelling
import Mathlib.Data.List.DropRight

set_option autoImplicit false

/-! # Timestamps survive their texts

The text that is written for a timestamp reads back as the very same timestamp, offset and fraction
included (`Timestamp.parse?_format`). It does so for the timestamps that a text can write at all: years
of four digits, whole nanoseconds below a second, and offsets of less than a day. Every timestamp that
was read is one of these (`Timestamp.isProper_of_parse?`).
-/

namespace ResourceQuery

/-! ## Digits of a fixed width -/

namespace Decimal

theorem valueFrom_zeros (count : Nat) (digits : List Char) :
    valueFrom 0 (List.replicate count '0' ++ digits) = valueFrom 0 digits := by
  induction count with
  | zero => rfl
  | succ count ih => exact ih

theorem isDigit_zeros {count : Nat} {c : Char} (h : c ∈ List.replicate count '0') :
    c.isDigit = true := by
  rw [List.eq_of_mem_replicate h]
  rfl

/-- Digits write a number that fits into their count. -/
theorem valueFrom_lt (start : Nat) {digits : List Char} (h : ∀ c ∈ digits, c.isDigit = true) :
    valueFrom start digits < (start + 1) * 10 ^ digits.length := by
  induction digits generalizing start with
  | nil => simp [valueFrom]
  | cons c rest ih =>
      have hc : c.toNat - 48 ≤ 9 :=
        CharClass.of_isDigit (p := fun c => c.toNat - 48 ≤ 9) (by decide) (h c List.mem_cons_self)
      have hrest := ih (10 * start + (c.toNat - 48)) fun d hd => h d (List.mem_cons_of_mem _ hd)
      have hstep : 10 * start + (c.toNat - 48) + 1 ≤ (start + 1) * 10 := by omega
      calc valueFrom (10 * start + (c.toNat - 48)) rest
          < (10 * start + (c.toNat - 48) + 1) * 10 ^ rest.length := hrest
        _ ≤ (start + 1) * 10 * 10 ^ rest.length := Nat.mul_le_mul_right _ hstep
        _ = (start + 1) * 10 ^ (rest.length + 1) := by rw [Nat.pow_succ', Nat.mul_assoc]

end Decimal

namespace Timestamp

open Decimal

/-- A number that fits into a width is written with as many characters. -/
theorem length_padded {width n : Nat} (hwidth : 0 < width) (hn : n < 10 ^ width) :
    (padded width n).toList.length = width := by
  have hlength := (Nat.length_toDigits_le_iff (by decide) hwidth).mpr hn
  simp only [padded, Text.padLeft, String.toList_append, String.toList_ofList, List.length_append,
    List.length_replicate, toList_naturalText, ← String.length_toList]
  omega

theorem isDigit_padded {width n : Nat} {c : Char} (h : c ∈ (padded width n).toList) :
    c.isDigit = true := by
  simp only [padded, Text.padLeft, String.toList_append, String.toList_ofList, List.mem_append,
    toList_naturalText] at h
  rcases h with hzero | hdigit
  · exact isDigit_zeros hzero
  · exact all_isDigit_toDigits n c hdigit

theorem valueFrom_padded (width n : Nat) : valueFrom 0 (padded width n).toList = n := by
  simp only [padded, Text.padLeft, String.toList_append, String.toList_ofList, toList_naturalText,
    valueFrom_zeros, valueFrom_toDigits]

theorem natural?_padded {width n : Nat} (hwidth : 0 < width) (hn : n < 10 ^ width) :
    natural? (padded width n).toList = some n := by
  have hlength := length_padded hwidth hn
  have hne : (padded width n).toList.isEmpty = false := by
    rw [List.isEmpty_eq_false_iff]
    intro hnil
    rw [hnil] at hlength
    exact hwidth.ne hlength
  have hall : (padded width n).toList.all Char.isDigit = true :=
    List.all_eq_true.mpr fun _ => isDigit_padded
  unfold natural?
  rw [hne, hall, valueFrom_padded]
  rfl

/-- A number of a fixed width is read from the start of a text. -/
theorem fixedDigits_padded {width n : Nat} (hwidth : 0 < width) (hn : n < 10 ^ width)
    (rest : List Char) : fixedDigits width ((padded width n).toList ++ rest) = some (n, rest) := by
  have hlength := length_padded hwidth hn
  unfold fixedDigits
  rw [List.take_left' hlength, List.drop_left' hlength, natural?_padded hwidth hn, Option.bind_some,
    if_pos hlength]

theorem afterChar_cons (c : Char) (rest : List Char) : afterChar c (c :: rest) = some rest := by
  unfold afterChar
  exact if_pos rfl

/-! ## Fractions -/

/-- Digits without the zeros at their end. -/
theorem exists_trailing_zeros (digits : List Char) :
    ∃ count, digits = (digits.reverse.dropWhile (· == '0')).reverse ++ List.replicate count '0' := by
  have hsplit : digits.rdropWhile (· == '0') ++ digits.rtakeWhile (· == '0') = digits :=
    List.rdropWhile_append_rtakeWhile
  have hzeros : ∀ c ∈ digits.rtakeWhile (· == '0'), c = '0' := by
    intro c hc
    simpa using List.mem_rtakeWhile_imp hc
  refine ⟨(digits.rtakeWhile (· == '0')).length, ?_⟩
  rw [← List.eq_replicate_of_mem hzeros]
  exact hsplit.symm

/-- What is written for a fraction: digits that are those of the nanoseconds once they are filled up with
zeros again. -/
theorem fractionDigits_fills {nanosecond : Nat} (hne : nanosecond ≠ 0) (h : nanosecond < 10 ^ 9) :
    (fractionDigits 1 nanosecond).toList ≠ [] ∧
      (∀ c ∈ (fractionDigits 1 nanosecond).toList, c.isDigit = true) ∧
        ((fractionDigits 1 nanosecond).toList ++ List.replicate 9 '0').take 9 =
          (padded 9 nanosecond).toList := by
  have hlength : (padded 9 nanosecond).toList.length = 9 := length_padded (by decide) h
  obtain ⟨count, hsplit⟩ := exists_trailing_zeros (padded 9 nanosecond).toList
  have hvalue := valueFrom_padded 9 nanosecond
  have hdigits : ∀ c ∈ (padded 9 nanosecond).toList, c.isDigit = true := fun _ => isDigit_padded
  unfold fractionDigits
  generalize (padded 9 nanosecond).toList = nine at hlength hsplit hvalue hdigits
  dsimp only
  generalize (nine.reverse.dropWhile (· == '0')).reverse = kept at hsplit
  -- some digit is left, as the number is not zero
  have hkept : kept ≠ [] := by
    rintro rfl
    rw [hsplit, List.nil_append, ← List.append_nil (List.replicate count '0'), valueFrom_zeros] at hvalue
    exact hne hvalue.symm
  have hsome : ¬ kept.length < 1 := by
    rw [Nat.lt_one_iff, List.length_eq_zero_iff]
    exact hkept
  rw [if_neg hsome, String.toList_ofList]
  refine ⟨hkept, fun c hc => hdigits c (hsplit ▸ List.mem_append_left _ hc), ?_⟩
  have hcount : kept.length + count = 9 := by
    rw [hsplit, List.length_append, List.length_replicate] at hlength
    exact hlength
  rw [List.take_append, List.take_of_length_le (by omega), List.take_replicate, hsplit]
  congr 2
  omega

/-- What is written after the seconds. -/
def fractionText (nanosecond : Nat) : String :=
  if nanosecond = 0 then "" else "." ++ fractionDigits 1 nanosecond

theorem fraction?_fractionText {nanosecond : Nat} (h : nanosecond < 10 ^ 9) {c : Char}
    {rest : List Char} (hc : c.isDigit = false) (hpoint : c ≠ '.') :
    fraction? ((fractionText nanosecond).toList ++ c :: rest) = some (nanosecond, c :: rest) := by
  unfold fractionText
  by_cases hzero : nanosecond = 0
  · rw [if_pos hzero, hzero]
    show fraction? (c :: rest) = _
    unfold fraction?
    split
    · rename_i heq
      exact absurd (List.cons.inj heq).1 hpoint
    · rfl
  · obtain ⟨hne, hdigits, hfill⟩ := fractionDigits_fills hzero h
    rw [if_neg hzero]
    have htext : ("." ++ fractionDigits 1 nanosecond).toList ++ c :: rest =
        '.' :: ((fractionDigits 1 nanosecond).toList ++ c :: rest) := by
      rw [String.toList_append]
      rfl
    have hspan : spanDigits ((fractionDigits 1 nanosecond).toList ++ c :: rest) =
        ((fractionDigits 1 nanosecond).toList, c :: rest) :=
      spanDigits_append hdigits fun d hd => Option.some.inj hd ▸ hc
    have hempty : (fractionDigits 1 nanosecond).toList.isEmpty = false := by
      rw [List.isEmpty_eq_false_iff]
      exact hne
    rw [htext]
    unfold fraction?
    simp only [hspan, hempty, hfill, valueFrom_padded, Bool.false_eq_true, if_false]

/-! ## Offsets -/

/-- What is written for an offset. -/
def zoneText (offset : Int) : String :=
  if offset = 0 then "Z" else offsetText offset

/-- The text of an offset starts with a mark that ends what is before it. -/
theorem zoneText_cons (offset : Int) :
    ∃ c rest, (zoneText offset).toList = c :: rest ∧ c.isDigit = false ∧ c ≠ '.' := by
  unfold zoneText offsetText
  split
  · exact ⟨'Z', [], rfl, rfl, by decide⟩
  · split
    · exact ⟨'-', _, by simp only [String.toList_append]; rfl, rfl, by decide⟩
    · exact ⟨'+', _, by simp only [String.toList_append]; rfl, rfl, by decide⟩

theorem offset?_signed {sign : Char} {hours minutes : Nat} (hhours : hours ≤ 23)
    (hminutes : minutes ≤ 59) :
    offset? (sign :: ((padded 2 hours).toList ++ ':' :: (padded 2 minutes).toList)) =
      if sign = '+' then some ((hours * 60 + minutes : Nat) : Int)
      else if sign = '-' then some (-((hours * 60 + minutes : Nat) : Int)) else none := by
  have hrest : ∀ {rest}, fixedDigits 2 ((padded 2 hours).toList ++ rest) = some (hours, rest) :=
    fixedDigits_padded (by decide) (by omega) _
  have hend : fixedDigits 2 (padded 2 minutes).toList = some (minutes, []) := by
    rw [← List.append_nil (padded 2 minutes).toList]
    exact fixedDigits_padded (by decide) (by omega) []
  have hlength : 2 ≤ ((padded 2 hours).toList ++ ':' :: (padded 2 minutes).toList).length := by
    rw [List.length_append, length_padded (by decide) (by omega)]
    omega
  unfold offset?
  split
  · rename_i heq
    rw [(List.cons.inj heq).2] at hlength
    cases hlength
  · rename_i heq
    obtain ⟨rfl, rfl⟩ := List.cons.inj heq
    simp only [hrest, afterChar_cons, hend, Option.bind_eq_bind, Option.bind_some, hhours, hminutes,
      List.isEmpty_nil, and_self, if_true]
  · rename_i heq
    cases heq

theorem offset?_zoneText {offset : Int} (h : offset.natAbs < 1440) :
    offset? (zoneText offset).toList = some offset := by
  unfold zoneText
  by_cases hzero : offset = 0
  · rw [if_pos hzero, hzero]
    rfl
  · have hhours : offset.natAbs / 60 ≤ 23 := by omega
    have hminutes : offset.natAbs % 60 ≤ 59 := by omega
    have hsum : offset.natAbs / 60 * 60 + offset.natAbs % 60 = offset.natAbs := by omega
    have htext : ∀ sign : Char, (offsetText offset).toList =
        sign :: ((padded 2 (offset.natAbs / 60)).toList ++
          ':' :: (padded 2 (offset.natAbs % 60)).toList) → offset? (offsetText offset).toList =
            if sign = '+' then some (offset.natAbs : Int)
            else if sign = '-' then some (-(offset.natAbs : Int)) else none := by
      intro sign hsign
      rw [hsign, offset?_signed hhours hminutes, hsum]
    rw [if_neg hzero]
    by_cases hnegative : offset < 0
    · rw [htext '-' (by simp [offsetText, hnegative])]
      simp only [Char.reduceEq, if_false, if_true, Option.some.injEq]
      omega
    · rw [htext '+' (by simp [offsetText, hnegative])]
      simp only [if_true, Option.some.injEq]
      omega

/-! ## Timestamps -/

/-- Whether a text can write the timestamp. -/
def isProper (t : Timestamp) : Bool :=
  t.isValid && t.year ≤ 9999 && t.nanosecond < 10 ^ 9 && t.offset.natAbs < 1440

theorem toList_format (t : Timestamp) : t.format.toList =
    (padded 4 t.year).toList ++ '-' :: ((padded 2 t.month).toList ++ '-' ::
      ((padded 2 t.day).toList ++ 'T' :: ((padded 2 t.hour).toList ++ ':' ::
        ((padded 2 t.minute).toList ++ ':' :: ((padded 2 t.second).toList ++
          ((fractionText t.nanosecond).toList ++ (zoneText t.offset).toList)))))) := by
  have hdash : "-".toList = ['-'] := rfl
  have hcolon : ":".toList = [':'] := rfl
  have htime : "T".toList = ['T'] := rfl
  have htext : t.format = padded 4 t.year ++ "-" ++ padded 2 t.month ++ "-" ++ padded 2 t.day ++ "T" ++
      padded 2 t.hour ++ ":" ++ padded 2 t.minute ++ ":" ++ padded 2 t.second ++
      fractionText t.nanosecond ++ zoneText t.offset := by
    unfold format fractionText zoneText
    rfl
  rw [htext]
  simp only [String.toList_append, List.append_assoc, hdash, hcolon, htime, List.cons_append,
    List.nil_append]

/-- **A timestamp that a text can write reads back from its text.** -/
theorem parse?_format {t : Timestamp} (h : t.isProper = true) : parse? t.format = some t := by
  simp only [isProper, Bool.and_eq_true, decide_eq_true_eq] at h
  obtain ⟨⟨⟨hvalid, hyear⟩, hnano⟩, hoffset⟩ := h
  have hbounds := hvalid
  simp only [isValid, Bool.and_eq_true, decide_eq_true_eq] at hbounds
  obtain ⟨⟨⟨⟨⟨⟨_, hmonth⟩, _⟩, hday⟩, hhour⟩, hminute⟩, hsecond⟩ := hbounds
  have hdays : daysInMonth t.year t.month ≤ 31 := by
    unfold daysInMonth
    split
    · split <;> omega
    all_goals omega
  -- each part is read from the start of what is left
  have htwo : ∀ {n : Nat} {rest}, n ≤ 99 → fixedDigits 2 ((padded 2 n).toList ++ rest) = some (n, rest) :=
    fun hn => fixedDigits_padded (by decide) (by omega) _
  have hfour : ∀ {rest}, fixedDigits 4 ((padded 4 t.year).toList ++ rest) = some (t.year, rest) :=
    fixedDigits_padded (by decide) (by omega) _
  have hfraction : fraction? ((fractionText t.nanosecond).toList ++ (zoneText t.offset).toList) =
      some (t.nanosecond, (zoneText t.offset).toList) := by
    obtain ⟨c, rest, hzone, hc, hpoint⟩ := zoneText_cons t.offset
    rw [hzone]
    exact fraction?_fractionText hnano hc hpoint
  have hleap : (t.second == 60) = false := by
    rw [beq_eq_false_iff_ne]
    omega
  unfold parse?
  rw [toList_format]
  rw [hfour, Option.bind_eq_bind, Option.bind_some]
  dsimp only
  rw [afterChar_cons, Option.bind_eq_bind, Option.bind_some, htwo (show t.month ≤ 99 by omega),
    Option.bind_eq_bind, Option.bind_some]
  dsimp only
  rw [afterChar_cons, Option.bind_some, htwo (show t.day ≤ 99 by omega), Option.bind_some]
  dsimp only
  rw [if_pos (by decide), Option.bind_some, htwo (show t.hour ≤ 99 by omega), Option.bind_some]
  dsimp only
  rw [afterChar_cons, Option.bind_some, htwo (show t.minute ≤ 99 by omega), Option.bind_some]
  dsimp only
  rw [afterChar_cons, Option.bind_some, htwo (show t.second ≤ 99 by omega), Option.bind_some]
  dsimp only
  rw [hfraction, Option.bind_some, offset?_zoneText hoffset, Option.bind_some, hleap]
  exact if_pos (by rw [if_neg Bool.false_ne_true, hvalid]; rfl)

/-! ## What was read -/

theorem natAbs_offset? {cs : List Char} {offset : Int} (h : offset? cs = some offset) :
    offset.natAbs < 1440 := by
  unfold offset? at h
  split at h
  · split at h
    · cases h
      decide
    · cases h
  · simp only [Option.bind_eq_bind, Option.bind_eq_some_iff] at h
    obtain ⟨⟨hours, _⟩, _, _, _, ⟨minutes, _⟩, _, h⟩ := h
    dsimp only at h
    split at h
    · rename_i hbounds
      split at h
      · cases h
        omega
      · split at h
        · cases h
          omega
        · cases h
    · cases h
  · cases h

theorem fraction?_lt {cs rest : List Char} {nanosecond : Nat}
    (h : fraction? cs = some (nanosecond, rest)) : nanosecond < 10 ^ 9 := by
  unfold fraction? at h
  split at h
  · rename_i more
    dsimp only at h
    split at h
    · cases h
    · cases h
      have hdigits : ∀ c ∈ ((spanDigits more).1 ++ List.replicate 9 '0').take 9, c.isDigit = true := by
        intro c hc
        rcases List.mem_append.mp (List.mem_of_mem_take hc) with hdigit | hzero
        · exact List.mem_takeWhile_imp hdigit
        · exact isDigit_zeros hzero
      have hlength : (((spanDigits more).1 ++ List.replicate 9 '0').take 9).length = 9 := by
        rw [List.length_take, List.length_append, List.length_replicate]
        omega
      have hbound := valueFrom_lt 0 hdigits
      rw [hlength] at hbound
      exact hbound
  · cases h
    decide

theorem fixedDigits_lt {n value : Nat} {cs rest : List Char}
    (h : fixedDigits n cs = some (value, rest)) : value < 10 ^ n := by
  unfold fixedDigits at h
  obtain ⟨read, hread, h⟩ := Option.bind_eq_some_iff.mp h
  unfold natural? at hread
  split at h
  · rename_i hlength
    cases h
    split at hread
    · rename_i hdigits
      cases hread
      rw [Bool.and_eq_true, List.all_eq_true] at hdigits
      have hbound := valueFrom_lt 0 hdigits.2
      rw [hlength, Nat.zero_add, Nat.one_mul] at hbound
      exact hbound
    · cases hread
  · cases h

/-- What is read behind the date goes on behind one character. -/
theorem exists_afterSeparator {α : Type} {cs : List Char} {next : List Char → Option α} {a : α}
    (h : (match cs with
      | c :: rest => if c.toNat < 128 then some rest >>= next else none >>= next
      | [] => none >>= next) = some a) : ∃ rest, next rest = some a := by
  split at h
  · split at h
    · exact ⟨_, h⟩
    · cases h
  · cases h

/-- **A timestamp that was read can be written.** -/
theorem isProper_of_parse? {s : String} {t : Timestamp} (h : parse? s = some t) :
    t.isProper = true := by
  unfold parse? at h
  obtain ⟨⟨year, _⟩, hyear, h⟩ := Option.bind_eq_some_iff.mp h
  obtain ⟨_, _, h⟩ := Option.bind_eq_some_iff.mp h
  obtain ⟨⟨month, _⟩, _, h⟩ := Option.bind_eq_some_iff.mp h
  obtain ⟨_, _, h⟩ := Option.bind_eq_some_iff.mp h
  obtain ⟨⟨day, timed⟩, _, h⟩ := Option.bind_eq_some_iff.mp h
  obtain ⟨rest, h⟩ := exists_afterSeparator h
  obtain ⟨⟨hour, _⟩, _, h⟩ := Option.bind_eq_some_iff.mp h
  obtain ⟨_, _, h⟩ := Option.bind_eq_some_iff.mp h
  obtain ⟨⟨minute, _⟩, _, h⟩ := Option.bind_eq_some_iff.mp h
  obtain ⟨_, _, h⟩ := Option.bind_eq_some_iff.mp h
  obtain ⟨⟨second, _⟩, _, h⟩ := Option.bind_eq_some_iff.mp h
  obtain ⟨⟨nanosecond, _⟩, hfraction, h⟩ := Option.bind_eq_some_iff.mp h
  obtain ⟨offset, hoffset, h⟩ := Option.bind_eq_some_iff.mp h
  have hyear : year < 10 ^ 4 := fixedDigits_lt hyear
  have hnano : nanosecond < 10 ^ 9 := fraction?_lt hfraction
  have hoffset : offset.natAbs < 1440 := natAbs_offset? hoffset
  -- a leap second was read as the second before it; this changes none of the bounds
  have hparts : ∀ read : Timestamp, read.year = year → read.offset = offset →
      read.nanosecond < 10 ^ 9 → (if (read.isValid && (!(second == 60) || read.endsUniversalMonth)) = true
        then some read else none) = some t → t.isProper = true := by
    intro read hreadYear hreadOffset hreadNano hread
    split at hread
    · rename_i hvalid
      rw [← Option.some.inj hread]
      unfold isProper
      rw [(Bool.and_eq_true_iff.mp hvalid).1, hreadYear, hreadOffset]
      simp only [Bool.true_and, Bool.and_eq_true, decide_eq_true_eq]
      exact ⟨⟨by omega, hreadNano⟩, hoffset⟩
    · cases hread
  cases hleap : second == 60 with
  | false =>
      rw [hleap] at h hparts
      exact hparts _ rfl rfl hnano h
  | true =>
      rw [hleap] at h hparts
      exact hparts _ rfl rfl (show 999999999 < 10 ^ 9 by decide) h

end Timestamp

end ResourceQuery
