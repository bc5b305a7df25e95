import ResourceQuery.Proofs.Expr.Written
import ResourceQuery.Proofs.Number.Bits
import ResourceQuery.Proofs.Number.Shortest
import ResourceQuery.Proofs.Value.Twins

set_option autoImplicit false

/-! # Floats read back

The text of every finite float stands for the float (`Literal.readsBack_float`). The digits lie in the
interval of ratios that are rounded to it, so what is left to show is that the text writes the ratio of the
digits, and that reading it rounds this ratio: the bound on exponents, which keeps powers of ten small while
reading, is never reached.
-/

namespace ResourceQuery

namespace Decimal

variable {whole fraction : List Char}

/-- Digits, a point and digits are read as the ratio that they write. -/
theorem float?_of_point (hne : whole ≠ []) (hwhole : ∀ c ∈ whole, c.isDigit = true)
    (hfractionNe : fraction ≠ []) (hfraction : ∀ c ∈ fraction, c.isDigit = true) :
    float? (String.ofList (whole ++ '.' :: fraction)) =
      some (Binary64.nearest false (valueFrom 0 (whole ++ fraction)) (10 ^ fraction.length)) := by
  have hnone : ∀ c ∈ ([] : List Char).head?, c.isDigit = false := nofun
  have hspanWhole : spanDigits (whole ++ '.' :: fraction) = (whole, '.' :: fraction) :=
    spanDigits_append hwhole fun c hc => by cases hc; decide
  have hspanFraction : spanDigits fraction = (fraction, []) := by
    have hspan := spanDigits_append hfraction hnone
    rwa [List.append_nil] at hspan
  have hunsigned : unsignedFloat? false (whole ++ '.' :: fraction) =
      some (Binary64.nearest false (valueFrom 0 (whole ++ fraction)) (10 ^ fraction.length)) := by
    have hlength : 0 < fraction.length := List.length_pos_iff.mpr hfractionNe
    have hempty : (whole.isEmpty && fraction.isEmpty) = false := by
      cases whole with
      | nil => exact absurd rfl hne
      | cons c cs => rfl
    -- so few digits do not reach the bounds of the exponent
    have hclamped : max (-((whole.length + fraction.length : Nat) : Int) - 400)
        (min 400 (0 - (fraction.length : Int))) = -(fraction.length : Int) := by
      omega
    unfold unsignedFloat?
    simp only [hspanWhole, hspanFraction, hempty, exponent?, Option.map_some, clamped, Binary64.ofDecimal]
    rw [hclamped, if_neg Bool.false_ne_true, if_pos (by omega), neg_neg, Int.toNat_natCast]
    rfl
  obtain ⟨c, cs, rfl⟩ := List.exists_cons_of_ne_nil hne
  have hc := hwhole c List.mem_cons_self
  have hlist : (String.ofList (c :: cs ++ '.' :: fraction)).toList = c :: (cs ++ '.' :: fraction) :=
    String.toList_ofList
  -- a digit starts none of the words that stand for floats
  have hword : ∀ d : Char, d.isDigit = false → ∀ rest : List Char,
      Text.asciiLower (String.ofList (c :: (cs ++ '.' :: fraction))) ≠ String.ofList (d :: rest) := by
    intro d hd rest heq
    have hlower : c.toLower = d := by
      have hchars := congrArg String.toList heq
      rw [Text.asciiLower, String.toList_ofList, String.toList_ofList, String.toList_ofList,
        List.map_cons] at hchars
      exact (List.cons.inj hchars).1
    have hdigit : c.toLower.isDigit = true :=
      CharClass.of_isDigit (p := fun d => d.toLower.isDigit = true) (by decide) hc
    rw [hlower, hd] at hdigit
    cases hdigit
  unfold float?
  rw [hlist]
  split
  rename_i negative unsigned hsplit
  have hsign : negative = false ∧ unsigned = c :: (cs ++ '.' :: fraction) := by
    split at hsplit
    · rename_i heq
      cases heq
      cases hc
    · rename_i heq
      cases heq
      cases hc
    · cases hsplit
      exact ⟨rfl, rfl⟩
  obtain ⟨rfl, rfl⟩ := hsign
  split
  · rename_i heq
    exact absurd heq (hword 'i' (by decide) ['n', 'f'])
  · rename_i heq
    exact absurd heq (hword 'i' (by decide) ['n', 'f', 'i', 'n', 'i', 't', 'y'])
  · rename_i heq
    exact absurd heq (hword 'n' (by decide) ['a', 'n'])
  · exact hunsigned

end Decimal

namespace Literal

/-- The digits of a number, as its text has them, are rounded to the number. -/
theorem nearest_decimalOf {m : Nat} {e : Int} (hfinite : Binary64.IsFinite m e) {digits places : Nat}
    (hplaces : 0 ≤ (decimalOf m e).2 + places)
    (hdigits : digits = (decimalOf m e).1 * 10 ^ ((decimalOf m e).2 + places).toNat) :
    Binary64.nearest false digits (10 ^ places) =
      Binary64.assemble false 0 (Binary64.magnitudeBits m e) := by
  obtain rfl | hm := Nat.eq_zero_or_pos m
  · -- zero has the least exponent
    have hexponent : ¬ Binary64.minExponent < e := fun hlt => absurd (hfinite.normal hlt) (by decide)
    have hleast := hfinite.least_le
    obtain rfl : e = Binary64.minExponent := by omega
    have hzero : digits = 0 := by
      rw [hdigits]
      exact Nat.zero_mul _
    rw [hzero]
    rfl
  · obtain ⟨hpos, hcovers⟩ := Shortest.decimal_spec .up hm hfinite
    have hdecimal : decimalOf m e = Shortest.decimal .up m e := if_neg hm.ne'
    rw [hdecimal] at hplaces hdigits
    have hratio : (digits : ℚ) / (10 ^ places : Nat) =
        (Shortest.decimal .up m e).1 * 10 ^ (Shortest.decimal .up m e).2 := by
      have hten : (10 : ℚ) ≠ 0 := by norm_num
      have hpower : (10 : ℚ) ^ ((Shortest.decimal .up m e).2 + places).toNat =
          10 ^ (Shortest.decimal .up m e).2 * 10 ^ places := by
        rw [← zpow_natCast, Int.toNat_of_nonneg hplaces, zpow_add₀ hten, zpow_natCast]
      rw [hdigits]
      push_cast
      rw [hpower, div_eq_iff (by positivity)]
      ring
    rw [← hratio] at hcovers
    have hdigitsPos : 0 < digits := by
      rw [hdigits]
      positivity
    exact Binary64.nearest_eq false hcovers hfinite hdigitsPos (by positivity)

/-- **The text of a finite float stands for the float.** -/
theorem readsBack_float {x : Float} (h : x.isFinite = true) : (Literal.float x).ReadsBack := by
  obtain ⟨negative, m, e, hx⟩ := Binary64.exists_ofFloat h
  obtain ⟨-, hfinite, heq⟩ := Binary64.of_ofFloat hx
  obtain ⟨whole, fraction, hne, hfractionNe, hwhole, hfraction, htext, hplaces, hdigits⟩ :=
    text_float_spec h hx
  refine ⟨h, ⟨negative, m, e, hx⟩, Binary64.assemble false 0 (Binary64.magnitudeBits m e), ?_, ?_⟩
  · rw [unsigned_eq hne hwhole htext, Decimal.float?_of_point hne hwhole hfractionNe hfraction,
      nearest_decimalOf hfinite hplaces hdigits]
  · have hread : (if (unsigned x).1 = true then -Binary64.assemble false 0 (Binary64.magnitudeBits m e)
        else Binary64.assemble false 0 (Binary64.magnitudeBits m e)) = x := by
      rw [unsigned_eq hne hwhole htext, heq]
      cases negative with
      | true =>
          rw [if_pos rfl]
          exact Binary64.neg_assemble hfinite.magnitudeBits_lt
      | false => exact if_neg Bool.false_ne_true
    rw [hread]
    exact Float.beq_self_of_isFinite h

end Literal

end ResourceQuery
