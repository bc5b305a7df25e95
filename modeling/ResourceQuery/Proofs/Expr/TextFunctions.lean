import ResourceQuery.Expr.Eval
import ResourceQuery.Proofs.Expr.Reading
import ResourceQuery.Proofs.Text.Occurrences

set_option autoImplicit false

/-! # Functions on texts and positions

The functions on texts of a query agree on what a position is: the number of characters before it. The
position that `indexof` answers is one at which `substring` gives the text that was looked for, and which
`startswith` accepts; `contains`, `startswith` and `endswith` can be told from positions and lengths
(`Value.text_functions_agree`). How many bytes the characters take makes no difference, though the search may as
well be done among them.

A length is a whole number of 64 bits. A text that takes less than `2 ^ 63` bytes has one, and so has each of
its parts.
-/

namespace ResourceQuery

namespace Value

open Text

variable {s n : String} {k m : Int64} {i count : Nat}

/-! ## Positions as numbers -/

theorem length_lt_of_utf8ByteSize (hs : s.utf8ByteSize < 2 ^ 63) : s.toList.length < 2 ^ 63 := by
  have hle := length_le_encoded s.toList
  have hbytes : (encoded s.toList).length = s.utf8ByteSize := by
    rw [← bytes_eq_encoded, Percent.bytes]
    rfl
  omega

theorem toInt_count (h : count < 2 ^ 63) : (Int64.ofNat count).toInt = count :=
  Int64.toInt_ofNat_of_lt h

theorem count_nonneg (h : count < 2 ^ 63) : 0 ≤ Int64.ofNat count := by
  rw [Int64.le_iff_toInt_le, toInt_count h]
  exact Int.natCast_nonneg count

theorem count_ne_neg_one (h : count < 2 ^ 63) : Int64.ofNat count ≠ -1 := by
  intro hneg
  have hpos := count_nonneg h
  rw [hneg] at hpos
  exact absurd hpos (by decide)

theorem count_eq_zero_iff (h : count < 2 ^ 63) : Int64.ofNat count = 0 ↔ count = 0 := by
  rw [← Int64.toInt_inj, toInt_count h]
  exact Int.natCast_eq_zero

theorem toNat_toInt_count (h : count < 2 ^ 63) : (Int64.ofNat count).toInt.toNat = count := by
  rw [toInt_count h, Int.toNat_natCast]

/-! ## What the functions answer -/

theorem positionArgument_of_nonneg (f : TextFunction) (hk : 0 ≤ k) :
    positionArgument f (some (.int k)) = .ok (some k.toInt.toNat) := by
  rw [positionArgument, if_neg]
  exact Int.not_lt.mpr (Int64.le_iff_toInt_le.mp hk)

theorem call_substring_from (s : String) (hk : 0 ≤ k) :
    call .substring [.string s, .int k] = .ok (.string (String.ofList (s.toList.drop k.toInt.toNat))) := by
  have hposition := positionArgument_of_nonneg .substring hk
  simp only [call, textArgument, applyToText, List.head?_cons, List.tail_cons, List.getElem?_cons_zero,
    List.getElem?_cons_succ, List.getElem?_nil, hposition]
  rfl

theorem call_substring (s : String) (hk : 0 ≤ k) (hm : 0 ≤ m) :
    call .substring [.string s, .int k, .int m] =
      .ok (.string (String.ofList ((s.toList.drop k.toInt.toNat).take m.toInt.toNat))) := by
  have hposition := positionArgument_of_nonneg .substring hk
  have hlength := positionArgument_of_nonneg .substring hm
  simp only [call, textArgument, applyToText, List.head?_cons, List.tail_cons, List.getElem?_cons_zero,
    List.getElem?_cons_succ, hposition, hlength]
  rfl

/-- From position `k` on the text starts, or does not start, with another. -/
def StartsAt (s n : String) (k : Int64) (answer : Bool) : Prop :=
  ∃ rest, call .substring [.string s, .int k] = .ok rest ∧ call .startsWith [rest, .string n] = .ok (.bool answer)

theorem startsAt (s n : String) (hk : 0 ≤ k) :
    StartsAt s n k (n.toList.isPrefixOf (s.toList.drop k.toInt.toNat)) := by
  refine ⟨_, call_substring_from s hk, ?_⟩
  have hstarts (t : String) :
      call .startsWith [.string t, .string n] = .ok (.bool (n.toList.isPrefixOf t.toList)) := rfl
  rw [hstarts, String.toList_ofList]

/-! ## The position of a text -/

/-- The position says where the text is found, or that it is not. -/
theorem call_indexOf (s n : String) (hs : s.utf8ByteSize < 2 ^ 63) :
    (∃ i, indexOf? n.toList s.toList = some i ∧ i < 2 ^ 63 ∧
        call .indexOf [.string s, .string n] = .ok (.int (Int64.ofNat i))) ∨
      indexOf? n.toList s.toList = none ∧ call .indexOf [.string s, .string n] = .ok (.int (-1)) := by
  have hcall : call .indexOf [.string s, .string n] = .ok (positionOf n.toList s.toList) := rfl
  rw [hcall, positionOf]
  cases hindex : indexOf? n.toList s.toList with
  | none => exact .inr ⟨rfl, rfl⟩
  | some i =>
      have hle := le_length_of_indexOf? hindex
      have hlength := length_lt_of_utf8ByteSize hs
      exact .inl ⟨i, rfl, by omega, rfl⟩

/-- Before the position where a text is found it does not start. -/
theorem not_startsAt_of_lt (hindex : indexOf? n.toList s.toList = some i) (hi : i < 2 ^ 63) (hk : 0 ≤ k)
    (hlt : k < Int64.ofNat i) : StartsAt s n k false := by
  have hbefore : k.toInt.toNat < i := by
    rw [Int64.lt_iff_toInt_lt, toInt_count hi] at hlt
    rw [Int64.le_iff_toInt_le] at hk
    have hzero : (0 : Int64).toInt = 0 := rfl
    omega
  have hnot : n.toList.isPrefixOf (s.toList.drop k.toInt.toNat) = false := by
    rw [← Bool.not_eq_true, List.isPrefixOf_iff_prefix]
    exact (indexOf?_eq_some_iff.mp hindex).2 _ hbefore
  exact hnot ▸ startsAt s n hk

theorem startsAt_of_indexOf? (hindex : indexOf? n.toList s.toList = some i) (hi : i < 2 ^ 63) :
    StartsAt s n (Int64.ofNat i) true := by
  have hstarts := startsAt s n (count_nonneg hi)
  have hfound : n.toList.isPrefixOf (s.toList.drop (Int64.ofNat i).toInt.toNat) = true := by
    rw [toNat_toInt_count hi, List.isPrefixOf_iff_prefix]
    exact (indexOf?_eq_some_iff.mp hindex).1
  rwa [hfound] at hstarts

/-- What stands at the position where a text is found, of the length of the text, is the text. -/
theorem substring_of_indexOf? (hn : n.utf8ByteSize < 2 ^ 63) (hindex : indexOf? n.toList s.toList = some i)
    (hi : i < 2 ^ 63) :
    call .substring [.string s, .int (Int64.ofNat i), .int (Int64.ofNat n.toList.length)] = .ok (.string n) := by
  have hlength := length_lt_of_utf8ByteSize hn
  rw [call_substring s (count_nonneg hi) (count_nonneg hlength), toNat_toInt_count hi, toNat_toInt_count hlength,
    ← List.prefix_iff_eq_take.mp (indexOf?_eq_some_iff.mp hindex).1, String.ofList_toList]

/-- A text is found behind as many characters as its position says, and its bytes do not occur before the bytes
that follow these. -/
theorem bytes_of_indexOf? (hindex : indexOf? n.toList s.toList = some i) :
    ∃ front back, s = front ++ back ∧ call .length [.string front] = .ok (.int (Int64.ofNat i)) ∧
      Percent.bytes n <+: Percent.bytes back ∧
        ∀ b < (Percent.bytes front).length, ¬ Percent.bytes n <+: (Percent.bytes s).drop b := by
  have hlength : (s.toList.take i).length = i := List.length_take_of_le (le_length_of_indexOf? hindex)
  have hcall : call .length [.string (String.ofList (s.toList.take i))] =
      .ok (.int (Int64.ofNat (String.ofList (s.toList.take i)).toList.length)) := rfl
  refine ⟨String.ofList (s.toList.take i), String.ofList (s.toList.drop i), ?_, ?_, ?_⟩
  · rw [← String.ofList_append, List.take_append_drop, String.ofList_toList]
  · rw [hcall, String.toList_ofList, hlength]
  · simp only [bytes_eq_encoded, String.toList_ofList]
    exact first_of_indexOf? hindex

/-! ## The end of a text -/

/-- The difference of the lengths is where a text starts that another ends with. -/
theorem arithmetic_sub_lengths (hs : s.utf8ByteSize < 2 ^ 63) (hn : n.utf8ByteSize < 2 ^ 63)
    (hle : n.toList.length ≤ s.toList.length) :
    arithmetic .sub (.int (Int64.ofNat s.toList.length)) (.int (Int64.ofNat n.toList.length)) =
      .ok (.int (Int64.ofNat (s.toList.length - n.toList.length))) := by
  have hlengthS := length_lt_of_utf8ByteSize hs
  have hlengthN := length_lt_of_utf8ByteSize hn
  have hdifference : (Int64.ofNat s.toList.length).toInt - (Int64.ofNat n.toList.length).toInt =
      (Int64.ofNat (s.toList.length - n.toList.length)).toInt := by
    rw [toInt_count hlengthS, toInt_count hlengthN, toInt_count (by omega)]
    omega
  rw [arithmetic, wholeArithmetic, fitted, hdifference, Parser.int64?_toInt]

theorem isSuffix_iff_substring (hs : s.utf8ByteSize < 2 ^ 63) (hn : n.utf8ByteSize < 2 ^ 63) :
    n.toList <:+ s.toList ↔
      Int64.ofNat n.toList.length ≤ Int64.ofNat s.toList.length ∧
        ∃ start, arithmetic .sub (.int (Int64.ofNat s.toList.length)) (.int (Int64.ofNat n.toList.length)) =
            .ok (.int start) ∧ call .substring [.string s, .int start] = .ok (.string n) := by
  have hlengthS := length_lt_of_utf8ByteSize hs
  have hlengthN := length_lt_of_utf8ByteSize hn
  have hle : Int64.ofNat n.toList.length ≤ Int64.ofNat s.toList.length ↔ n.toList.length ≤ s.toList.length := by
    rw [Int64.le_iff_toInt_le, toInt_count hlengthS, toInt_count hlengthN, Int.ofNat_le]
  have hstart : s.toList.length - n.toList.length < 2 ^ 63 := by omega
  rw [hle]
  constructor
  · intro hsuffix
    have hrest := List.suffix_iff_eq_drop.mp hsuffix
    refine ⟨hsuffix.length_le, _, arithmetic_sub_lengths hs hn hsuffix.length_le, ?_⟩
    rw [call_substring_from s (count_nonneg hstart), toNat_toInt_count hstart, ← hrest, String.ofList_toList]
  · rintro ⟨hshort, start, hsub, hrest⟩
    rw [arithmetic_sub_lengths hs hn hshort] at hsub
    cases hsub
    rw [call_substring_from s (count_nonneg hstart), toNat_toInt_count hstart] at hrest
    have hdrop := congrArg String.toList (Value.string.inj (Except.ok.inj hrest))
    rw [String.toList_ofList] at hdrop
    exact List.suffix_iff_eq_drop.mpr hdrop.symm

/-! ## Texts in two -/

/-- A text falls into two at any position. -/
theorem exists_parts (s : String) (hk : 0 ≤ k) :
    ∃ front back, call .substring [.string s, .int 0, .int k] = .ok (.string front) ∧
      call .substring [.string s, .int k] = .ok (.string back) ∧ front ++ back = s := by
  refine ⟨_, _, call_substring s (by decide) hk, call_substring_from s hk, ?_⟩
  have hzero : (0 : Int64).toInt.toNat = 0 := rfl
  rw [hzero, List.drop_zero, ← String.ofList_append, List.take_append_drop, String.ofList_toList]

/-! ## All of them -/

/-- What the functions answer about a text and another that is looked for in it. -/
structure Answers (s n : String) where
  position : Int64
  length : Int64
  needleLength : Int64
  found : Bool
  starts : Bool
  ends : Bool
  position_eq : call .indexOf [.string s, .string n] = .ok (.int position)
  length_eq : call .length [.string s] = .ok (.int length)
  needleLength_eq : call .length [.string n] = .ok (.int needleLength)
  found_eq : call .contains [.string s, .string n] = .ok (.bool found)
  starts_eq : call .startsWith [.string s, .string n] = .ok (.bool starts)
  ends_eq : call .endsWith [.string s, .string n] = .ok (.bool ends)

/-- The answers, given the position. -/
def Answers.ofPosition (h : call .indexOf [.string s, .string n] = .ok (.int k)) : Answers s n where
  position := k
  length := Int64.ofNat s.toList.length
  needleLength := Int64.ofNat n.toList.length
  found := (indexOf? n.toList s.toList).isSome
  starts := n.toList.isPrefixOf s.toList
  ends := n.toList.isSuffixOf s.toList
  position_eq := h
  length_eq := rfl
  needleLength_eq := rfl
  found_eq := rfl
  starts_eq := rfl
  ends_eq := rfl

/-- **Functions on texts agree on positions.** A text contains another if the position of the other is not -1.
A position that is not negative is the first one at which the other text stands, by `substring` and by
`startswith`; it counts the characters before the first byte at which the bytes of the other text occur. A
text starts with another at position 0, and ends with it if it is what is left from the difference of the
lengths on; of both their bytes tell the same. And a text falls into two at any position. -/
theorem text_functions_agree (hs : s.utf8ByteSize < 2 ^ 63) (hn : n.utf8ByteSize < 2 ^ 63) :
    ∃ a : Answers s n,
      (a.found = true ↔ a.position ≠ -1) ∧
      (a.position = -1 ∨ 0 ≤ a.position) ∧
      (0 ≤ a.position →
        call .substring [.string s, .int a.position, .int a.needleLength] = .ok (.string n) ∧
          StartsAt s n a.position true ∧ ∀ k, 0 ≤ k → k < a.position → StartsAt s n k false) ∧
      (a.starts = true ↔ a.position = 0) ∧
      (a.ends = true ↔ a.needleLength ≤ a.length ∧
        ∃ start, arithmetic .sub (.int a.length) (.int a.needleLength) = .ok (.int start) ∧
          call .substring [.string s, .int start] = .ok (.string n)) ∧
      (∀ k, 0 ≤ k → ∃ front back, call .substring [.string s, .int 0, .int k] = .ok (.string front) ∧
        call .substring [.string s, .int k] = .ok (.string back) ∧ front ++ back = s) ∧
      (a.position = -1 → ∀ b, ¬ Percent.bytes n <+: (Percent.bytes s).drop b) ∧
      (0 ≤ a.position → ∃ front back, s = front ++ back ∧ call .length [.string front] = .ok (.int a.position) ∧
        Percent.bytes n <+: Percent.bytes back ∧
          ∀ b < (Percent.bytes front).length, ¬ Percent.bytes n <+: (Percent.bytes s).drop b) ∧
      (a.starts = true ↔ Percent.bytes n <+: Percent.bytes s) ∧
      (a.ends = true ↔ Percent.bytes n <:+ Percent.bytes s) := by
  have hstarts : n.toList.isPrefixOf s.toList = true ↔ indexOf? n.toList s.toList = some 0 := by
    rw [indexOf?_eq_zero_iff, List.isPrefixOf_iff_prefix]
  have hends : n.toList.isSuffixOf s.toList = true ↔ _ :=
    List.isSuffixOf_iff_suffix.trans (isSuffix_iff_substring hs hn)
  have hparts (k : Int64) (hk : 0 ≤ k) := exists_parts s hk
  have hprefix : n.toList.isPrefixOf s.toList = true ↔ Percent.bytes n <+: Percent.bytes s := by
    rw [bytes_eq_encoded, bytes_eq_encoded, encoded_isPrefix_iff, List.isPrefixOf_iff_prefix]
  have hsuffix : n.toList.isSuffixOf s.toList = true ↔ Percent.bytes n <:+ Percent.bytes s := by
    rw [bytes_eq_encoded, bytes_eq_encoded, encoded_isSuffix_iff, List.isSuffixOf_iff_suffix]
  rcases call_indexOf s n hs with ⟨i, hindex, hi, hcall⟩ | ⟨hindex, hcall⟩
  · have hfound : (indexOf? n.toList s.toList).isSome = true := by rw [hindex, Option.isSome_some]
    rw [hindex, Option.some.injEq] at hstarts
    refine ⟨.ofPosition hcall, ?contains, .inr (count_nonneg hi), fun _ => ⟨?stands, ?starts, ?first⟩, ?atStart,
      hends, hparts, fun hneg => absurd hneg (count_ne_neg_one hi), fun _ => ?bytes, hprefix, hsuffix⟩
    case contains => exact iff_of_true hfound (count_ne_neg_one hi)
    case stands => exact substring_of_indexOf? hn hindex hi
    case starts => exact startsAt_of_indexOf? hindex hi
    case first => exact fun k hk hlt => not_startsAt_of_lt hindex hi hk hlt
    case atStart => exact hstarts.trans (count_eq_zero_iff hi).symm
    case bytes => exact bytes_of_indexOf? hindex
  · have hlost : ¬ (indexOf? n.toList s.toList).isSome = true := by simp [hindex]
    have hnot : ¬ (0 : Int64) ≤ -1 := by decide
    have hne : (-1 : Int64) ≠ 0 := by decide
    rw [hindex] at hstarts
    refine ⟨.ofPosition hcall, ?contains, .inl rfl, fun h => absurd h hnot, ?atStart, hends, hparts,
      fun _ => ?bytes, fun h => absurd h hnot, hprefix, hsuffix⟩
    case contains => exact iff_of_false hlost fun h => h rfl
    case atStart => exact iff_of_false (fun h => nomatch hstarts.mp h) hne
    case bytes =>
      rw [bytes_eq_encoded, bytes_eq_encoded]
      exact nowhere_of_indexOf? hindex

/-- In "héllo" the two "l" are behind three bytes and two characters. -/
theorem text_functions_agree_hello : ∃ a : Answers "héllo" "l", a.position = 2 ∧
    call .substring [.string "héllo", .int a.position, .int a.needleLength] = .ok (.string "l") := by
  obtain ⟨a, -, -, hstands, -⟩ :=
    text_functions_agree (s := "héllo") (n := "l") (by decide) (by decide)
  have hcall : call .indexOf [.string "héllo", .string "l"] = .ok (.int 2) := rfl
  have hposition : a.position = 2 := by
    have hboth := a.position_eq.symm.trans hcall
    exact Value.int.inj (Except.ok.inj hboth)
  exact ⟨a, hposition, (hstands (hposition ▸ by decide)).1⟩

end Value

end ResourceQuery
