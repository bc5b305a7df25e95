import ResourceQuery.Number.Shortest
import ResourceQuery.Proofs.Number.Rounding

set_option autoImplicit false

/-! # Shortest decimals read back

The decimals that `Shortest.search` looks at are those that the number covers, so whichever one it finds
is rounded to the number again (`Shortest.decimal_spec`). What has to be shown besides is that it does find
one: the grids get finer by a factor of ten at each step, and the last one is finer than a quarter of the
number's last bit.
-/

namespace ResourceQuery

namespace Shortest

variable {tie : Tie} {value below above step : Nat} {closed : Bool}

/-! ## One grid -/

theorem choose_cases {floor digits : Nat} {lowHit highHit : Bool}
    (h : choose tie value step floor lowHit highHit = some digits) :
    lowHit = true ∧ digits = floor ∨ highHit = true ∧ digits = floor + 1 := by
  unfold choose at h
  split at h
  · -- either of them, as the distances and the tie have it
    dsimp only at h
    split at h
    · cases h
      exact .inl ⟨rfl, rfl⟩
    · split at h
      · cases h
        exact .inr ⟨rfl, rfl⟩
      · cases tie with
        | up =>
            cases h
            exact .inr ⟨rfl, rfl⟩
        | toEven =>
            obtain hparity | hparity := Nat.mod_two_eq_zero_or_one floor
            · rw [if_pos hparity] at h
              cases h
              exact .inl ⟨rfl, rfl⟩
            · rw [if_neg (by omega)] at h
              cases h
              exact .inr ⟨rfl, rfl⟩
  · cases h
    exact .inl ⟨rfl, rfl⟩
  · cases h
    exact .inr ⟨rfl, rfl⟩
  · cases h

theorem exists_choose (floor : Nat) (highHit : Bool) :
    ∃ digits, choose tie value step floor true highHit = some digits := by
  cases highHit with
  | false => exact ⟨floor, rfl⟩
  | true =>
      simp only [choose]
      split
      · exact ⟨_, rfl⟩
      · split
        · exact ⟨_, rfl⟩
        · cases tie <;> exact ⟨_, rfl⟩

/-- What is found on a grid is in the interval, and at its ends only if these belong to it. -/
theorem onGrid_spec {digits : Nat} (habove : 0 < above) (hstep : 0 < step)
    (h : onGrid tie value below above step closed = some digits) :
    0 < digits ∧ value ≤ digits * step + below ∧ digits * step ≤ value + above ∧
      (closed = false → value < digits * step + below ∧ digits * step < value + above) := by
  have hfloor : value / step * step ≤ value := Nat.div_mul_le_self value step
  have hceiling : value < (value / step + 1) * step := by
    rw [Nat.mul_comm]
    exact Nat.lt_mul_div_succ value hstep
  unfold onGrid at h
  dsimp only at h
  obtain ⟨hhit, rfl⟩ | ⟨hhit, rfl⟩ := choose_cases h
  · cases closed with
    | true =>
        simp only [if_true, Bool.and_eq_true, decide_eq_true_eq] at hhit
        exact ⟨hhit.2, hhit.1, by omega, nofun⟩
    | false =>
        simp only [Bool.false_eq_true, if_false, Bool.and_eq_true, decide_eq_true_eq] at hhit
        exact ⟨hhit.2, hhit.1.le, by omega, fun _ => ⟨hhit.1, by omega⟩⟩
  · cases closed with
    | true =>
        simp only [if_true, decide_eq_true_eq] at hhit
        exact ⟨Nat.succ_pos _, by omega, hhit, nofun⟩
    | false =>
        simp only [Bool.false_eq_true, if_false, decide_eq_true_eq] at hhit
        exact ⟨Nat.succ_pos _, by omega, hhit.le, fun _ => ⟨by omega, hhit⟩⟩

/-- Something is found on a grid that is fine enough. -/
theorem exists_onGrid (hstep : 0 < step) (hfine : step ≤ below) (hbelow : below ≤ value) :
    ∃ digits, onGrid tie value below above step closed = some digits := by
  have hceiling : value < (value / step + 1) * step := by
    rw [Nat.mul_comm]
    exact Nat.lt_mul_div_succ value hstep
  rw [Nat.add_mul, Nat.one_mul] at hceiling
  have hpos : 0 < value / step := Nat.div_pos (hfine.trans hbelow) hstep
  have hhit : if closed = true then value ≤ value / step * step + below
      else value < value / step * step + below := by
    split <;> omega
  unfold onGrid
  dsimp only
  rw [decide_eq_true hhit, decide_eq_true hpos]
  exact exists_choose _ _

/-! ## From grid to grid -/

/-- The scale on which the number and the grid `10 ^ k` are whole. -/
def gridScale (two k : Int) : Nat :=
  Nat.pow 2 two.toNat * Nat.pow 10 (-k).toNat

/-- A step of the grid `10 ^ k` on its scale. -/
def gridStep (two k : Int) : Nat :=
  Nat.pow 2 (-two).toNat * Nat.pow 10 k.toNat

theorem gridScale_pos (two k : Int) : 0 < gridScale two k :=
  Nat.mul_pos (Nat.pow_pos (by decide)) (Nat.pow_pos (by decide))

theorem gridStep_pos (two k : Int) : 0 < gridStep two k :=
  Nat.mul_pos (Nat.pow_pos (by decide)) (Nat.pow_pos (by decide))

theorem pow_toNat_div (b : ℚ) (k : Int) : b ^ k.toNat / b ^ (-k).toNat = b ^ k := by
  obtain hk | hk := le_total 0 k
  · obtain ⟨n, rfl⟩ := Int.eq_ofNat_of_zero_le hk
    have hzero : (-(n : Int)).toNat = 0 := by omega
    rw [hzero, Int.toNat_natCast, pow_zero, div_one, zpow_natCast]
  · obtain ⟨n, hn⟩ : ∃ n : Nat, k = -n := ⟨(-k).toNat, by omega⟩
    subst hn
    have hzero : (-(n : Int)).toNat = 0 := by omega
    rw [hzero, neg_neg, Int.toNat_natCast, pow_zero, zpow_neg, zpow_natCast, one_div]

theorem gridStep_ratio (two k : Int) :
    (gridStep two k : ℚ) * 2 ^ two = 10 ^ k * gridScale two k := by
  have hten := pow_toNat_div 10 k
  have htwo := pow_toNat_div 2 two
  rw [← hten, ← htwo]
  simp only [gridStep, gridScale, Nat.pow_eq]
  push_cast
  field_simp

/-- In units of `2 ^ two`, the ratio `q` is at most `below` less than the mantissa and at most `above`
more, and not as far away as that unless the interval is `closed`. -/
structure Within (mantissa below above : Nat) (two : Int) (closed : Bool) (q : ℚ) : Prop where
  low : (mantissa - below) * (2 : ℚ) ^ two ≤ q
  high : q ≤ (mantissa + above) * (2 : ℚ) ^ two
  inside : closed = false →
    (mantissa - below) * (2 : ℚ) ^ two < q ∧ q < (mantissa + above) * (2 : ℚ) ^ two

variable {mantissa : Nat} {two k : Int}

/-- What is found on the grid `10 ^ k` is within the interval. -/
theorem within_of_onGrid {digits : Nat} (habove : 0 < above)
    (h : onGrid tie (mantissa * gridScale two k) (below * gridScale two k) (above * gridScale two k)
      (gridStep two k) closed = some digits) :
    0 < digits ∧ Within mantissa below above two closed (digits * 10 ^ k) := by
  have hscale : (0 : ℚ) < gridScale two k := by exact_mod_cast gridScale_pos two k
  have hunit : (0 : ℚ) < 2 ^ two := by positivity
  have hratio := gridStep_ratio two k
  obtain ⟨hpos, hlow, hhigh, hinside⟩ :=
    onGrid_spec (Nat.mul_pos habove (gridScale_pos two k)) (gridStep_pos two k) h
  -- units are compared as they are on the scale
  have hunits : ∀ c : ℚ, c * 2 ^ two * gridScale two k = c * gridScale two k * 2 ^ two := fun c => by ring
  have hdigits : (digits : ℚ) * 10 ^ k * gridScale two k = digits * gridStep two k * 2 ^ two := by
    rw [mul_assoc, ← hratio]
    ring
  have hfrom : ∀ c : ℚ, c * 2 ^ two ≤ digits * 10 ^ k ↔ c * gridScale two k ≤ digits * gridStep two k := by
    intro c
    rw [← mul_le_mul_iff_of_pos_right hscale, hunits, hdigits, mul_le_mul_iff_of_pos_right hunit]
  have hupto : ∀ c : ℚ, (digits : ℚ) * 10 ^ k ≤ c * 2 ^ two ↔
      (digits : ℚ) * gridStep two k ≤ c * gridScale two k := by
    intro c
    rw [← mul_le_mul_iff_of_pos_right hscale, hunits, hdigits, mul_le_mul_iff_of_pos_right hunit]
  refine ⟨hpos, ⟨?_, ?_, fun hclosed => ⟨?_, ?_⟩⟩⟩
  · have hcast : (mantissa : ℚ) * gridScale two k ≤
        digits * gridStep two k + below * gridScale two k := by exact_mod_cast hlow
    rw [hfrom]
    linarith
  · have hcast : (digits : ℚ) * gridStep two k ≤
        mantissa * gridScale two k + above * gridScale two k := by exact_mod_cast hhigh
    rw [hupto]
    linarith
  · have hcast : (mantissa : ℚ) * gridScale two k <
        digits * gridStep two k + below * gridScale two k := by exact_mod_cast (hinside hclosed).1
    rw [lt_iff_lt_of_le_iff_le (hupto _)]
    linarith
  · have hcast : (digits : ℚ) * gridStep two k <
        mantissa * gridScale two k + above * gridScale two k := by exact_mod_cast (hinside hclosed).2
    rw [lt_iff_lt_of_le_iff_le (hfrom _)]
    linarith

/-- What the grid has is found. -/
theorem search_of_some {fuel digits : Nat}
    (h : onGrid tie (mantissa * gridScale two k) (below * gridScale two k) (above * gridScale two k)
      (gridStep two k) closed = some digits) :
    search tie mantissa below above two closed (fuel + 1) k = (digits, k) := by
  rw [search]
  split
  · rename_i heq
    cases heq.symm.trans h
    rfl
  · rename_i heq
    cases heq.symm.trans h

/-- If the grid has nothing, then the search goes on with the next one. -/
theorem search_of_none {fuel : Nat}
    (h : onGrid tie (mantissa * gridScale two k) (below * gridScale two k) (above * gridScale two k)
      (gridStep two k) closed = none) :
    search tie mantissa below above two closed (fuel + 1) k =
      search tie mantissa below above two closed fuel (k - 1) := by
  rw [search]
  split
  · rename_i heq
    cases heq.symm.trans h
  · rfl

/-- **The search finds something within the interval**, if one of the grids that it comes to is no coarser
than the lower half of the interval. -/
theorem search_spec (habove : 0 < above) (hbelow : below ≤ mantissa) {fuel : Nat}
    (hfine : ∃ i < fuel, (10 : ℚ) ^ (k - i) ≤ below * 2 ^ two) :
    0 < (search tie mantissa below above two closed fuel k).1 ∧
      Within mantissa below above two closed
        ((search tie mantissa below above two closed fuel k).1 *
          10 ^ (search tie mantissa below above two closed fuel k).2) := by
  induction fuel generalizing k with
  | zero =>
      obtain ⟨i, hi, -⟩ := hfine
      exact absurd hi (Nat.not_lt_zero i)
  | succ fuel ih =>
      cases hgrid : onGrid tie (mantissa * gridScale two k) (below * gridScale two k)
          (above * gridScale two k) (gridStep two k) closed with
      | some digits =>
          rw [search_of_some hgrid]
          exact within_of_onGrid habove hgrid
      | none =>
          rw [search_of_none hgrid]
          obtain ⟨i, hi, hpower⟩ := hfine
          cases i with
          | zero =>
              -- this grid is fine enough, so something was found
              have hscale : (0 : ℚ) < gridScale two k := by exact_mod_cast gridScale_pos two k
              have hunit : (0 : ℚ) < 2 ^ two := by positivity
              have hfine : gridStep two k ≤ below * gridScale two k := by
                have hcast : (gridStep two k : ℚ) * 2 ^ two ≤ below * gridScale two k * 2 ^ two := by
                  rw [gridStep_ratio]
                  calc (10 : ℚ) ^ k * gridScale two k ≤ below * 2 ^ two * gridScale two k := by
                        gcongr
                        simpa using hpower
                    _ = below * gridScale two k * 2 ^ two := by ring
                exact_mod_cast le_of_mul_le_mul_right hcast hunit
              obtain ⟨digits, hsome⟩ : ∃ digits, onGrid tie (mantissa * gridScale two k)
                  (below * gridScale two k) (above * gridScale two k) (gridStep two k) closed =
                    some digits :=
                exists_onGrid (gridStep_pos two k) hfine (Nat.mul_le_mul_right _ hbelow)
              cases hgrid.symm.trans hsome
          | succ i =>
              refine ih ⟨i, Nat.lt_of_succ_lt_succ hi, ?_⟩
              have hexponent : k - 1 - (i : Int) = k - ((i + 1 : Nat) : Int) := by push_cast; ring
              rw [hexponent]
              exact hpower

/-! ## The finest grid -/

/-- `10 ^ 3` is less than `2 ^ 10`. -/
theorem ten_pow_le_two_pow {n : Nat} {j : Int} (h : 10 * (n : Int) ≤ 3 * j) : (10 : ℚ) ^ n ≤ 2 ^ j := by
  have hpos : (0 : ℚ) ≤ 2 ^ j := by positivity
  rw [← pow_le_pow_iff_left₀ (by positivity) hpos (n := 3) (by decide)]
  calc ((10 : ℚ) ^ n) ^ 3 = (10 ^ 3) ^ n := pow_right_comm 10 n 3
    _ ≤ (2 ^ 10) ^ n := by gcongr; norm_num
    _ = 2 ^ (10 * (n : Int)) := by rw [← pow_mul, ← zpow_natCast]; push_cast; rfl
    _ ≤ 2 ^ (3 * j) := zpow_le_zpow_right₀ one_le_two h
    _ = (2 ^ j) ^ 3 := by rw [mul_comm, zpow_mul]; norm_cast

/-- `2 ^ 23` is less than `10 ^ 7`. -/
theorem two_pow_le_ten_pow {n : Nat} {j : Int} (h : 7 * j ≤ 23 * (n : Int)) : (2 : ℚ) ^ j ≤ 10 ^ n := by
  have hpos : (0 : ℚ) ≤ 2 ^ j := by positivity
  rw [← pow_le_pow_iff_left₀ hpos (by positivity) (n := 7) (by decide)]
  calc ((2 : ℚ) ^ j) ^ 7 = 2 ^ (7 * j) := by rw [mul_comm 7 j, zpow_mul]; norm_cast
    _ ≤ 2 ^ (23 * (n : Int)) := zpow_le_zpow_right₀ one_le_two h
    _ = (2 ^ 23) ^ n := by rw [← pow_mul, ← zpow_natCast]; push_cast; rfl
    _ ≤ (10 ^ 7) ^ n := by gcongr; norm_num
    _ = (10 ^ n) ^ 7 := pow_right_comm 10 7 n

/-- A power of ten is at most a power of two if its exponent is small enough. -/
theorem ten_zpow_le_two_zpow {k j : Int} (hpos : 0 ≤ k → 10 * k ≤ 3 * j) (hneg : k < 0 → 23 * k ≤ 7 * j) :
    (10 : ℚ) ^ k ≤ 2 ^ j := by
  obtain hk | hk := lt_or_ge k 0
  · obtain ⟨n, hn⟩ : ∃ n : Nat, k = -n := ⟨(-k).toNat, by omega⟩
    subst hn
    have hinverse : (2 : ℚ) ^ (-j) ≤ 10 ^ n := two_pow_le_ten_pow (by have := hneg hk; omega)
    rw [zpow_neg] at hinverse
    rw [zpow_neg, zpow_natCast]
    exact inv_le_of_inv_le₀ (by positivity) hinverse
  · obtain ⟨n, rfl⟩ := Int.eq_ofNat_of_zero_le hk
    rw [zpow_natCast]
    exact ten_pow_le_two_pow (hpos hk)

/-- **The shortest decimal of a number is covered by it**, and so it is rounded to the number. -/
theorem decimal_spec {m : Nat} {e : Int} (tie : Tie) (hm : 0 < m) (hfinite : Binary64.IsFinite m e) :
    0 < (decimal tie m e).1 ∧
      Binary64.Covers m e ((decimal tie m e).1 * 10 ^ (decimal tie m e).2) := by
  have hpower : (2 : ℚ) ^ e = 4 * 2 ^ (e - 2) := by
    rw [zpow_sub₀ two_ne_zero]
    norm_num
    ring
  have hreach : Binary64.reachDown m e = 1 ∨ Binary64.reachDown m e = 2 := by
    unfold Binary64.reachDown
    split
    · exact .inl rfl
    · exact .inr rfl
  let start : Int := ((m.log2 + e + 1) * 30103) / 100000 + 1
  have hdecimal : decimal tie m e =
      search tie (4 * m) (Binary64.reachDown m e) 2 (e - 2) (m % 2 = 0) 25 start := rfl
  -- the last grid is fine enough
  have hfine : ∃ i < 25, (10 : ℚ) ^ (start - (i : Nat)) ≤ Binary64.reachDown m e * 2 ^ (e - 2) := by
    have hlog : m.log2 ≤ 52 := by
      have hlt := hfinite.mantissa_lt
      have hlog := (Nat.log2_lt hm.ne' (k := 53)).mpr (by rw [Binary64.fractionUnit_eq] at hlt; omega)
      omega
    have hleast := hfinite.least_le
    have hgreatest := hfinite.le_greatest
    have hone : (1 : ℚ) ≤ Binary64.reachDown m e := by
      obtain h | h := hreach <;> rw [h] <;> norm_num
    refine ⟨24, by decide, ?_⟩
    calc (10 : ℚ) ^ (start - (24 : Nat)) ≤ 2 ^ (e - 2) := by
          refine ten_zpow_le_two_zpow (fun hk => ?_) (fun hk => ?_) <;>
            simp only [start, Binary64.minExponent] at * <;> push_cast at * <;> omega
      _ ≤ Binary64.reachDown m e * 2 ^ (e - 2) := le_mul_of_one_le_left (by positivity) hone
  have hbelow : Binary64.reachDown m e ≤ 4 * m := by
    obtain h | h := hreach <;> omega
  rw [hdecimal]
  obtain ⟨hpos, hwithin⟩ : 0 < (search tie (4 * m) (Binary64.reachDown m e) 2 (e - 2) (m % 2 = 0) 25 start).1 ∧
      Within (4 * m) (Binary64.reachDown m e) 2 (e - 2) (m % 2 = 0) _ :=
    search_spec Nat.two_pos hbelow hfine
  refine ⟨hpos, ⟨?_, ?_, fun hodd => ⟨?_, ?_⟩⟩⟩
  · have hlow := hwithin.low
    rw [hpower]
    push_cast at hlow
    linarith
  · have hhigh := hwithin.high
    rw [hpower]
    push_cast at hhigh
    linarith
  · have hlow := (hwithin.inside (by rw [hodd]; decide)).1
    rw [hpower]
    push_cast at hlow
    linarith
  · have hhigh := (hwithin.inside (by rw [hodd]; decide)).2
    rw [hpower]
    push_cast at hhigh
    linarith

end Shortest

end ResourceQuery
