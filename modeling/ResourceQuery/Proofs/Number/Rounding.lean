import Mathlib.Algebra.Order.Field.Power
import Mathlib.Data.Rat.Cast.Order
import Mathlib.Tactic.FieldSimp
import Mathlib.Tactic.Linarith
import Mathlib.Tactic.Positivity
import Mathlib.Tactic.Ring
import ResourceQuery.Number.Binary64

set_option autoImplicit false

/-! # Rounding to the nearest binary64 number

A finite number stands for all ratios that are nearer to it than to any other number; those in the middle
between two numbers belong to the one with the even mantissa. `Binary64.Covers` says this of a number by
its mantissa and exponent, without speaking of its neighbours, and `Binary64.nearest` comes to the number
from any ratio that it covers (`Binary64.nearest_eq`).
-/

namespace ResourceQuery

namespace Binary64

/-! ## The numbers -/

/-- Mantissa and exponent are those of a finite number: the mantissa has 53 bits, or fewer if the exponent
is the least one. -/
structure IsFinite (mantissa : Nat) (exponent : Int) : Prop where
  mantissa_lt : mantissa < 2 * fractionUnit
  least_le : minExponent ≤ exponent
  le_greatest : exponent ≤ 971
  normal : minExponent < exponent → fractionUnit ≤ mantissa

/-- How many quarters of its last bit a number reaches down: two, or one above a power of two, where the
numbers below are closer together. -/
def reachDown (mantissa : Nat) (exponent : Int) : Nat :=
  if mantissa = fractionUnit ∧ minExponent < exponent then 1 else 2

/-- The ratio `q` is nearest to the number, or in the middle between the number and the next one and the
number is even. -/
structure Covers (mantissa : Nat) (exponent : Int) (q : ℚ) : Prop where
  low : (4 * mantissa - reachDown mantissa exponent) * (2 : ℚ) ^ exponent ≤ 4 * q
  high : 4 * q ≤ (4 * mantissa + 2) * (2 : ℚ) ^ exponent
  inside : mantissa % 2 = 1 →
    (4 * mantissa - reachDown mantissa exponent) * (2 : ℚ) ^ exponent < 4 * q ∧
      4 * q < (4 * mantissa + 2) * (2 : ℚ) ^ exponent

/-- The bits of a positive number. -/
def magnitudeBits (mantissa : Nat) (exponent : Int) : Nat :=
  (exponent - minExponent).toNat * fractionUnit + mantissa

theorem fractionUnit_eq : fractionUnit = 2 ^ 52 := by
  decide

theorem IsFinite.magnitudeBits_lt {m : Nat} {e : Int} (h : IsFinite m e) :
    magnitudeBits m e < 2047 * fractionUnit := by
  have hmantissa := h.mantissa_lt
  have hle := h.le_greatest
  have hleast := h.least_le
  simp only [magnitudeBits, minExponent, fractionUnit] at *
  omega

/-! ## Rounding to whole numbers -/

/-- A ratio is rounded to a number that it is at most a half away from, where an odd number must be nearer
than that. -/
theorem roundHalfEven_eq {n d m : Nat} (hd : 0 < d) (hlow : 2 * (m * d) ≤ 2 * n + d)
    (hhigh : 2 * n ≤ 2 * (m * d) + d)
    (hodd : m % 2 = 1 → 2 * (m * d) < 2 * n + d ∧ 2 * n < 2 * (m * d) + d) :
    roundHalfEven n d = m := by
  have hdiv := Nat.div_add_mod n d
  have hmod := Nat.mod_lt n hd
  rw [Nat.mul_comm] at hdiv
  unfold roundHalfEven
  dsimp only
  generalize hq : n / d = q at *
  generalize n % d = r at *
  have hle : q ≤ m := by
    by_contra hlt
    have hmore : (m + 1) * d ≤ q * d := Nat.mul_le_mul_right d (Nat.lt_of_not_le hlt)
    rw [Nat.add_mul, Nat.one_mul] at hmore
    omega
  have hle' : m ≤ q + 1 := by
    by_contra hlt
    have hmore : (q + 2) * d ≤ m * d := Nat.mul_le_mul_right d (Nat.lt_of_not_le hlt)
    rw [Nat.add_mul] at hmore
    omega
  obtain rfl | rfl : m = q ∨ m = q + 1 := by omega
  · split
    · rfl
    · split
      · omega
      · have heven : m % 2 = 0 := by
          by_contra hne
          have hless := (hodd (by omega)).2
          omega
        omega
  · rw [Nat.add_mul, Nat.one_mul] at *
    split
    · omega
    · split
      · rfl
      · have heven : (q + 1) % 2 = 0 := by
          by_contra hne
          have hmore := (hodd (by omega)).1
          omega
        omega

/-! ## The exponent of a ratio -/

/-- The ratio `num / den`, in units of `2 ^ e`. -/
def scaled (num den : Nat) (e : Int) : Nat × Nat :=
  if e < 0 then (num * Nat.pow 2 (-e).toNat, den) else (num, den * Nat.pow 2 e.toNat)

/-- A first guess at the exponent of `num / den`, which may be one too large. -/
def guess (num den : Nat) : Int :=
  (num.log2 : Int) - den.log2 - 52

/-- The exponent of the number nearest to `num / den`. -/
def exponentOf (num den : Nat) : Int :=
  let (n, d) := scaled num den (guess num den)
  max minExponent (if n / d < fractionUnit then guess num den - 1 else guess num den)

theorem nearest_def (negative : Bool) (num den : Nat) :
    nearest negative num den =
      if num = 0 then assemble negative 0 0
      else
        let (n, d) := scaled num den (exponentOf num den)
        if 2046 ≤ exponentOf num den - minExponent then infinity negative
        else
          let bits := (exponentOf num den - minExponent).toNat * fractionUnit + roundHalfEven n d
          if 2047 * fractionUnit ≤ bits then infinity negative else assemble negative 0 bits := rfl

variable {num den : Nat}

theorem scaled_pos (hden : 0 < den) (e : Int) : 0 < (scaled num den e).2 := by
  unfold scaled
  split
  · exact hden
  · exact Nat.mul_pos hden (Nat.pow_pos Nat.two_pos)

theorem scaled_ratio (hden : 0 < den) (e : Int) :
    ((scaled num den e).1 : ℚ) / (scaled num den e).2 = num / den / (2 : ℚ) ^ e := by
  have hden' : (den : ℚ) ≠ 0 := by exact_mod_cast hden.ne'
  unfold scaled
  split
  · obtain ⟨k, hk⟩ : ∃ k : Nat, e = -k := ⟨(-e).toNat, by omega⟩
    subst hk
    simp only [neg_neg, Int.toNat_natCast, Nat.pow_eq, zpow_neg, zpow_natCast]
    push_cast
    field_simp
  · obtain ⟨k, hk⟩ : ∃ k : Nat, e = k := ⟨e.toNat, by omega⟩
    subst hk
    simp only [Int.toNat_natCast, Nat.pow_eq, zpow_natCast]
    push_cast
    field_simp

/-- A number lies between the powers of two that its logarithm gives. -/
theorem between_of_log2 {n : Nat} (hn : 0 < n) :
    (2 : ℚ) ^ (n.log2 : Int) ≤ n ∧ (n : ℚ) < 2 ^ ((n.log2 : Int) + 1) := by
  have hlow := Nat.log2_self_le hn.ne'
  have hhigh := Nat.lt_log2_self (n := n)
  refine ⟨?_, ?_⟩
  · rw [zpow_natCast]
    exact_mod_cast hlow
  · have hcast : ((n.log2 : Int) + 1) = ((n.log2 + 1 : Nat) : Int) := by norm_cast
    rw [hcast, zpow_natCast]
    exact_mod_cast hhigh

/-- The guess is right or one too large. -/
theorem guess_spec (hnum : 0 < num) (hden : 0 < den) :
    (2 : ℚ) ^ (51 + guess num den) < num / den ∧ (num : ℚ) / den < 2 ^ (53 + guess num den) := by
  obtain ⟨hnumLow, hnumHigh⟩ := between_of_log2 hnum
  obtain ⟨hdenLow, hdenHigh⟩ := between_of_log2 hden
  have hden' : (0 : ℚ) < den := by exact_mod_cast hden
  have htwo : (2 : ℚ) ≠ 0 := two_ne_zero
  unfold guess
  constructor
  · have hexponent : 51 + ((num.log2 : Int) - den.log2 - 52) = num.log2 - (den.log2 + 1) := by ring
    rw [hexponent, zpow_sub₀ htwo, div_lt_div_iff₀ (by positivity) hden']
    calc (2 : ℚ) ^ (num.log2 : Int) * den ≤ num * den := by gcongr
      _ < num * 2 ^ ((den.log2 : Int) + 1) := by gcongr
  · have hexponent : 53 + ((num.log2 : Int) - den.log2 - 52) = (num.log2 + 1) - den.log2 := by ring
    rw [hexponent, zpow_sub₀ htwo, div_lt_div_iff₀ hden' (by positivity)]
    calc (num : ℚ) * 2 ^ (den.log2 : Int) ≤ num * den := by gcongr
      _ < 2 ^ ((num.log2 : Int) + 1) * den := by gcongr

/-- The ratio has 53 bits before the point in units of the exponent, or fewer if the exponent is the least
one. -/
theorem exponentOf_spec (hnum : 0 < num) (hden : 0 < den) :
    minExponent ≤ exponentOf num den ∧ (num : ℚ) / den < 2 ^ (53 + exponentOf num den) ∧
      (minExponent < exponentOf num den → (2 : ℚ) ^ (52 + exponentOf num den) ≤ num / den) := by
  obtain ⟨hlow, hhigh⟩ := guess_spec hnum hden
  have htwo : (1 : ℚ) ≤ 2 := one_le_two
  have hpos : (0 : ℚ) < 2 ^ guess num den := by positivity
  -- whether the guess is too large is seen from the whole part
  have hguess : ∃ e, exponentOf num den = max minExponent e ∧
      (2 : ℚ) ^ (52 + e) ≤ num / den ∧ (num : ℚ) / den < 2 ^ (53 + e) := by
    have hscaled : 0 < (scaled num den (guess num den)).2 := scaled_pos hden _
    have hratio := @scaled_ratio num den hden (guess num den)
    have hscaled' : (0 : ℚ) < (scaled num den (guess num den)).2 := by exact_mod_cast hscaled
    have hunit : (fractionUnit : ℚ) = 2 ^ (52 : Int) := by
      rw [fractionUnit_eq]
      norm_num
    have hsmall : (scaled num den (guess num den)).1 / (scaled num den (guess num den)).2 < fractionUnit ↔
        (num : ℚ) / den < 2 ^ (52 + guess num den) := by
      rw [Nat.div_lt_iff_lt_mul hscaled, zpow_add₀ two_ne_zero, ← hunit, ← div_lt_iff₀ hpos, ← hratio,
        div_lt_iff₀ hscaled']
      exact_mod_cast Iff.rfl
    unfold exponentOf
    dsimp only
    by_cases h : (scaled num den (guess num den)).1 / (scaled num den (guess num den)).2 < fractionUnit
    · refine ⟨guess num den - 1, by rw [if_pos h], ?_, ?_⟩
      · have hexponent : 52 + (guess num den - 1) = 51 + guess num den := by ring
        rw [hexponent]
        exact hlow.le
      · have hexponent : 53 + (guess num den - 1) = 52 + guess num den := by ring
        rw [hexponent]
        exact hsmall.mp h
    · exact ⟨guess num den, by rw [if_neg h], not_lt.mp fun hlt => h (hsmall.mpr hlt), hhigh⟩
  obtain ⟨e, hmax, hleast, hgreatest⟩ := hguess
  rw [hmax]
  refine ⟨le_max_left _ _, hgreatest.trans_le ?_, fun hlt => ?_⟩
  · exact zpow_le_zpow_right₀ htwo (by have := le_max_right minExponent e; omega)
  · have heq : max minExponent e = e := by
      rw [max_eq_right_iff]
      by_contra hle
      rw [max_eq_left (by omega)] at hlt
      omega
    rw [heq]
    exact hleast

/-! ## Numbers that are covered -/

theorem reachDown_le (m : Nat) (e : Int) : reachDown m e ≤ 2 := by
  unfold reachDown
  split <;> decide

/-- A ratio that a number covers is below the power of two above the number, and above the second power of
two below it. -/
theorem Covers.between {m : Nat} {e : Int} {q : ℚ} (h : Covers m e q) (hfinite : IsFinite m e) :
    q < 2 ^ (53 + e) ∧ (minExponent < e → 2 ^ (51 + e) < q) := by
  have hpos : (0 : ℚ) < 2 ^ e := by positivity
  have htwo : (2 : ℚ) ≠ 0 := two_ne_zero
  constructor
  · have hmantissa : (m : ℚ) ≤ 2 ^ 53 - 1 := by
      have hlt := hfinite.mantissa_lt
      rw [fractionUnit_eq] at hlt
      have hle : m + 1 ≤ 2 ^ 53 := by omega
      have hcast : ((m : ℚ) + 1) ≤ 2 ^ 53 := by exact_mod_cast hle
      linarith
    have hbound : (4 * (m : ℚ) + 2) * 2 ^ e < 4 * (2 ^ 53 * 2 ^ e) := by
      rw [← mul_assoc]
      gcongr
      linarith
    have hpower : (2 : ℚ) ^ (53 + e) = 2 ^ 53 * 2 ^ e := by
      rw [zpow_add₀ htwo]
      norm_num
    rw [hpower]
    linarith [h.high]
  · intro hlt
    have hmantissa : (2 : ℚ) ^ 52 ≤ m := by
      have hnormal := hfinite.normal hlt
      rw [fractionUnit_eq] at hnormal
      exact_mod_cast hnormal
    have hreach : (reachDown m e : ℚ) ≤ 2 := by exact_mod_cast reachDown_le m e
    have hbound : 4 * (2 ^ 51 * (2 : ℚ) ^ e) < (4 * m - reachDown m e) * 2 ^ e := by
      rw [← mul_assoc]
      gcongr
      linarith
    have hpower : (2 : ℚ) ^ (51 + e) = 2 ^ 51 * 2 ^ e := by
      rw [zpow_add₀ htwo]
      norm_num
    rw [hpower]
    linarith [h.low]

/-- A ratio that a number covers has the exponent of the number, or else is just below the number and the
number is a power of two. -/
theorem Covers.exponentOf_eq {m : Nat} {e : Int} (h : Covers m e (num / den)) (hfinite : IsFinite m e)
    (hnum : 0 < num) (hden : 0 < den) :
    exponentOf num den = e ∨
      m = fractionUnit ∧ minExponent < e ∧ exponentOf num den = e - 1 := by
  obtain ⟨hleast, hhigh, hlow⟩ := exponentOf_spec hnum hden
  obtain ⟨habove, hbelow⟩ := h.between hfinite
  have htwo : (1 : ℚ) < 2 := one_lt_two
  have hle : exponentOf num den ≤ e := by
    by_contra hlt
    have hpowers := (hlow (by have := hfinite.least_le; omega)).trans_lt habove
    have hexponents := (zpow_lt_zpow_iff_right₀ htwo).mp hpowers
    omega
  by_cases hminimal : minExponent < e
  · have hexponents := (zpow_lt_zpow_iff_right₀ htwo).mp ((hbelow hminimal).trans hhigh)
    obtain heq | heq : exponentOf num den = e ∨ exponentOf num den = e - 1 := by omega
    · exact .inl heq
    · refine .inr ⟨?_, hminimal, heq⟩
      by_contra hne
      -- a number above the power of two does not reach down to it
      have hmantissa : (2 : ℚ) ^ 52 + 1 ≤ m := by
        have hnormal := hfinite.normal hminimal
        rw [fractionUnit_eq] at hnormal hne
        have hmore : 2 ^ 52 + 1 ≤ m := by omega
        exact_mod_cast hmore
      have hreach : (reachDown m e : ℚ) ≤ 2 := by exact_mod_cast reachDown_le m e
      have hpos : (0 : ℚ) < 2 ^ e := by positivity
      have hbound : 4 * (2 ^ 52 * (2 : ℚ) ^ e) < (4 * m - reachDown m e) * 2 ^ e := by
        rw [← mul_assoc]
        gcongr
        linarith
      have hpower : (2 : ℚ) ^ (53 + exponentOf num den) = 2 ^ 52 * 2 ^ e := by
        rw [heq, show 53 + (e - 1) = 52 + e by ring, zpow_add₀ two_ne_zero]
        norm_num
      rw [hpower] at hhigh
      linarith [h.low]
  · have hleast' := hfinite.least_le
    exact .inl (by omega)

/-- Rounding to whole numbers, for a ratio at most a half away. -/
theorem roundHalfEven_of_ratio {n d m : Nat} (hd : 0 < d) (hlow : 2 * (m : ℚ) - 1 ≤ 2 * (n / d))
    (hhigh : 2 * ((n : ℚ) / d) ≤ 2 * m + 1)
    (hodd : m % 2 = 1 → 2 * (m : ℚ) - 1 < 2 * (n / d) ∧ 2 * ((n : ℚ) / d) < 2 * m + 1) :
    roundHalfEven n d = m := by
  have hd' : (0 : ℚ) < d := by exact_mod_cast hd
  have hratio : (n : ℚ) / d * d = n := div_mul_cancel₀ _ hd'.ne'
  refine roundHalfEven_eq hd ?_ ?_ fun hm => ⟨?_, ?_⟩
  · have hscaled : (2 * (m : ℚ) - 1) * d ≤ 2 * (n / d) * d := by gcongr
    rw [mul_assoc, hratio] at hscaled
    have hcast : 2 * ((m : ℚ) * d) ≤ 2 * n + d := by linarith
    exact_mod_cast hcast
  · have hscaled : 2 * ((n : ℚ) / d) * d ≤ (2 * m + 1) * d := by gcongr
    rw [mul_assoc, hratio] at hscaled
    have hcast : 2 * (n : ℚ) ≤ 2 * (m * d) + d := by linarith
    exact_mod_cast hcast
  · have hscaled : (2 * (m : ℚ) - 1) * d < 2 * (n / d) * d := by
      gcongr
      exact (hodd hm).1
    rw [mul_assoc, hratio] at hscaled
    have hcast : 2 * ((m : ℚ) * d) < 2 * n + d := by linarith
    exact_mod_cast hcast
  · have hscaled : 2 * ((n : ℚ) / d) * d < (2 * m + 1) * d := by
      gcongr
      exact (hodd hm).2
    rw [mul_assoc, hratio] at hscaled
    have hcast : 2 * (n : ℚ) < 2 * (m * d) + d := by linarith
    exact_mod_cast hcast

/-- **A ratio that a number covers is rounded to the number.** -/
theorem nearest_eq {m : Nat} {e : Int} (negative : Bool) (h : Covers m e (num / den))
    (hfinite : IsFinite m e) (hnum : 0 < num) (hden : 0 < den) :
    nearest negative num den = assemble negative 0 (magnitudeBits m e) := by
  have hpos : (0 : ℚ) < 2 ^ e := by positivity
  have hscaled : 0 < (scaled num den (exponentOf num den)).2 := scaled_pos hden _
  have hratio := @scaled_ratio num den hden (exponentOf num den)
  have hreach : (reachDown m e : ℚ) ≤ 2 := by exact_mod_cast reachDown_le m e
  -- in units of the last bit
  have hlow : (4 * (m : ℚ) - reachDown m e) ≤ 4 * (num / den / 2 ^ e) := by
    rw [← mul_div_assoc, le_div_iff₀ hpos]
    exact h.low
  have hhigh : 4 * ((num : ℚ) / den / 2 ^ e) ≤ 4 * m + 2 := by
    rw [← mul_div_assoc, div_le_iff₀ hpos]
    exact h.high
  have hinside : m % 2 = 1 → (4 * (m : ℚ) - reachDown m e) < 4 * (num / den / 2 ^ e) ∧
      4 * ((num : ℚ) / den / 2 ^ e) < 4 * m + 2 := by
    intro hm
    rw [← mul_div_assoc, lt_div_iff₀ hpos, div_lt_iff₀ hpos]
    exact h.inside hm
  have hbits : (exponentOf num den - minExponent).toNat * fractionUnit +
      roundHalfEven (scaled num den (exponentOf num den)).1 (scaled num den (exponentOf num den)).2 =
        magnitudeBits m e := by
    obtain heq | ⟨hm, hminimal, heq⟩ := h.exponentOf_eq hfinite hnum hden
    · rw [heq] at hscaled hratio ⊢
      have hround := roundHalfEven_of_ratio (n := (scaled num den e).1) (m := m) hscaled
        (by rw [hratio]; linarith) (by rw [hratio]; linarith)
        (fun hodd => by rw [hratio]; exact ⟨by linarith [hinside hodd], by linarith [hinside hodd]⟩)
      rw [hround, magnitudeBits]
    · -- the ratio is rounded up to the power of two, which carries into the exponent
      obtain ⟨-, hbelow, -⟩ := exponentOf_spec hnum hden
      have hunit : (fractionUnit : ℚ) = 2 ^ 52 := by
        rw [fractionUnit_eq]
        norm_num
      have hone : reachDown m e = 1 := if_pos ⟨hm, hminimal⟩
      rw [hone, hm, hunit] at hlow
      have hupper : (num : ℚ) / den / 2 ^ e < 2 ^ 52 := by
        rw [div_lt_iff₀ hpos]
        rw [heq, show 53 + (e - 1) = 52 + e by ring, zpow_add₀ two_ne_zero] at hbelow
        exact_mod_cast hbelow
      have hhalf : (num : ℚ) / den / 2 ^ (e - 1) = 2 * (num / den / 2 ^ e) := by
        rw [zpow_sub₀ two_ne_zero, zpow_one]
        field_simp
      rw [heq] at hscaled hratio ⊢
      have hround := roundHalfEven_of_ratio (n := (scaled num den (e - 1)).1) (m := 2 * fractionUnit)
        hscaled (by push_cast; rw [hratio, hhalf, hunit]; push_cast at hlow; linarith)
        (by push_cast; rw [hratio, hhalf, hunit]; linarith) (fun hodd => by omega)
      rw [hround, magnitudeBits, hm]
      have hnext : (e - minExponent).toNat = (e - 1 - minExponent).toNat + 1 := by omega
      rw [hnext, Nat.add_mul]
      omega
  rw [nearest_def, if_neg hnum.ne']
  dsimp only
  rw [hbits]
  have hle : exponentOf num den ≤ e := by
    obtain heq | ⟨-, -, heq⟩ := h.exponentOf_eq hfinite hnum hden <;> omega
  have hgreatest := hfinite.le_greatest
  have hlt := hfinite.magnitudeBits_lt
  have hminimal : minExponent = -1074 := rfl
  rw [if_neg (by omega), if_neg (by omega)]

end Binary64

end ResourceQuery
