import Mathlib
import ResourceQuery.Proofs.Number.Rounding

set_option autoImplicit false

/-! # Bits of finite floats

Taking a finite float apart loses nothing: its sign, its mantissa and its exponent are put together to the
same float (`Binary64.of_ofFloat`), and a minus sign changes the first bit only (`Binary64.neg_assemble`).
-/

open Float.Model (Format UnpackedFloat)
open Float.Model.UnpackedFloat (unpackExponent unpackMantissa unpackSign isNaNBits Sign)

namespace ResourceQuery

namespace Binary64

/-! ## Fields -/

variable (u : UInt64)

theorem toNat_unpackExponent :
    (@unpackExponent Format.binary64 u.toBitVec).toNat = u.toNat / fractionUnit % 2048 := by
  rw [Float.Model.UnpackedFloat.unpackExponent_def, BitVec.extractLsb'_toNat, Nat.shiftRight_eq_div_pow]
  rfl

theorem toNat_unpackMantissa :
    (@unpackMantissa Format.binary64 u.toBitVec).toNat = u.toNat % fractionUnit := by
  rw [Float.Model.UnpackedFloat.unpackMantissa_def, BitVec.extractLsb'_toNat, Nat.shiftRight_eq_div_pow]
  simp [fractionUnit]

theorem toNat_unpackSign :
    (@unpackSign Format.binary64 u.toBitVec).toNat = u.toNat / signUnit % 2 := by
  rw [Float.Model.UnpackedFloat.unpackSign_def, BitVec.extractLsb'_toNat, Nat.shiftRight_eq_div_pow]
  rfl

/-- The exponent of a number that is not finite has all its bits. -/
theorem unpackExponent_eq_iff :
    @unpackExponent Format.binary64 u.toBitVec = -1#_ ↔ u.toNat / fractionUnit % 2048 = 2047 := by
  rw [← BitVec.toNat_inj, toNat_unpackExponent]
  rfl

variable {u}

/-- Bits of a finite number are the bits of the float. -/
theorem toBits_ofBits (h : u.toNat / fractionUnit % 2048 ≠ 2047) : (Float.ofBits u).toBits = u := by
  have hnumber : @isNaNBits Format.binary64 u.toBitVec = false := by
    simp only [isNaNBits, decide_eq_false_iff_not, not_and]
    exact fun hexponent => absurd ((unpackExponent_eq_iff u).mp hexponent) h
  rw [← UInt64.toBitVec_inj]
  show UnpackedFloat.pack Format.binary64 (UnpackedFloat.unpack Format.binary64 u.toBitVec) = u.toBitVec
  rw [Float.Model.UnpackedFloat.pack_unpack, hnumber]
  rfl

/-- A float is finite if its exponent does not have all its bits. -/
theorem isFinite_iff {x : Float} : x.isFinite = true ↔ x.toBits.toNat / fractionUnit % 2048 ≠ 2047 := by
  rw [ne_eq, ← unpackExponent_eq_iff]
  show (UnpackedFloat.unpack Format.binary64 x.toBits.toBitVec).isFinite = true ↔ _
  unfold UnpackedFloat.unpack
  dsimp only
  split
  · rename_i hexponent
    split <;> exact iff_of_false Bool.false_ne_true (not_not_intro hexponent)
  · rename_i hexponent
    split
    · split <;> exact iff_of_true rfl hexponent
    · exact iff_of_true rfl hexponent

/-! ## Sign -/

/-- The float whose bits differ from those of a finite float in the sign only is its negation. -/
theorem eq_neg_of_toBits {x y : Float} (h : y.toBits.toNat = x.toBits.toNat + signUnit) : y = -x := by
  have hlt : y.toBits.toNat < 2 * signUnit := y.toBits.toNat_lt
  have hexponent : @unpackExponent Format.binary64 y.toBits.toBitVec =
      @unpackExponent Format.binary64 x.toBits.toBitVec := by
    rw [← BitVec.toNat_inj, toNat_unpackExponent, toNat_unpackExponent, h]
    simp only [fractionUnit, signUnit] at *
    omega
  have hmantissa : @unpackMantissa Format.binary64 y.toBits.toBitVec =
      @unpackMantissa Format.binary64 x.toBits.toBitVec := by
    rw [← BitVec.toNat_inj, toNat_unpackMantissa, toNat_unpackMantissa, h]
    simp only [fractionUnit, signUnit] at *
    omega
  have hsign : Sign.ofBitVec (@unpackSign Format.binary64 y.toBits.toBitVec) =
      -Sign.ofBitVec (@unpackSign Format.binary64 x.toBits.toBitVec) := by
    have hx : @unpackSign Format.binary64 x.toBits.toBitVec = 0#1 := by
      rw [← BitVec.toNat_inj, toNat_unpackSign]
      simp only [signUnit, BitVec.toNat_ofNat] at *
      omega
    have hy : @unpackSign Format.binary64 y.toBits.toBitVec = 1#1 := by
      rw [← BitVec.toNat_inj, toNat_unpackSign]
      simp only [signUnit, BitVec.toNat_ofNat] at *
      omega
    rw [hx, hy]
    rfl
  have hunpack : UnpackedFloat.unpack Format.binary64 y.toBits.toBitVec =
      (UnpackedFloat.unpack Format.binary64 x.toBits.toBitVec).neg := by
    unfold UnpackedFloat.unpack
    simp only [hexponent, hmantissa, hsign]
    split
    · split <;> rfl
    · split
      · split <;> rfl
      · rfl
  rw [← Float.toBits_inj, ← UInt64.toBitVec_inj]
  show y.toBits.toBitVec =
    UnpackedFloat.pack Format.binary64 (UnpackedFloat.unpack Format.binary64 x.toBits.toBitVec).neg
  rw [← hunpack]
  exact (Float.Model.UnpackedFloat.pack_unpack_of_valid y.toModel.valid).symm

/-! ## Taking apart and putting together -/

theorem toNat_ofNat {negative : Bool} {bits : Nat} (h : bits < 2047 * fractionUnit) :
    (UInt64.ofNat ((if negative then signUnit else 0) + 0 * fractionUnit + bits)).toNat =
      (if negative then signUnit else 0) + bits := by
  rw [UInt64.toNat_ofNat']
  cases negative <;> simp only [fractionUnit, signUnit, Bool.false_eq_true, if_true, if_false] at * <;> omega

theorem toBits_assemble {negative : Bool} {bits : Nat} (h : bits < 2047 * fractionUnit) :
    (assemble negative 0 bits).toBits.toNat = (if negative then signUnit else 0) + bits := by
  have hfield : (UInt64.ofNat ((if negative then signUnit else 0) + 0 * fractionUnit + bits)).toNat /
      fractionUnit % 2048 ≠ 2047 := by
    rw [toNat_ofNat h]
    cases negative <;> simp only [fractionUnit, signUnit, Bool.false_eq_true, if_true, if_false] at * <;> omega
  unfold assemble
  rw [toBits_ofBits hfield, toNat_ofNat h]

/-- **A minus sign changes the first bit.** -/
theorem neg_assemble {bits : Nat} (h : bits < 2047 * fractionUnit) :
    -assemble false 0 bits = assemble true 0 bits := by
  refine (eq_neg_of_toBits ?_).symm
  rw [toBits_assemble h, toBits_assemble h]
  simp [Nat.add_comm]

/-- A finite float is taken apart into what a finite number has. -/
theorem exists_ofFloat {x : Float} (h : x.isFinite = true) :
    ∃ negative m e, ofFloat x = .finite negative m e := by
  have hexponent := isFinite_iff.mp h
  unfold ofFloat
  dsimp only
  rw [if_neg hexponent]
  split
  · exact ⟨_, _, _, rfl⟩
  · exact ⟨_, _, _, rfl⟩

/-- The bit of the sign stands before the others. -/
theorem sign_add (b : Nat) (hlt : b < 2 * signUnit) :
    b = (if b / signUnit % 2 == 1 then signUnit else 0) + b % signUnit := by
  obtain hsign | hsign := Nat.mod_two_eq_zero_or_one (b / signUnit) <;>
    simp only [hsign, signUnit, beq_iff_eq, if_true, if_false, zero_ne_one] at * <;> omega

/-- **Taking a finite float apart loses nothing.** -/
theorem of_ofFloat {x : Float} {negative : Bool} {m : Nat} {e : Int} (h : ofFloat x = .finite negative m e) :
    x.isFinite = true ∧ IsFinite m e ∧ x = assemble negative 0 (magnitudeBits m e) := by
  have hlt : x.toBits.toNat < 2 * signUnit := x.toBits.toNat_lt
  have hsign := sign_add x.toBits.toNat hlt
  unfold ofFloat at h
  dsimp only at h
  by_cases hexponent : x.toBits.toNat / fractionUnit % 2048 = 2047
  · rw [if_pos hexponent] at h
    split at h <;> cases h
  · rw [if_neg hexponent] at h
    have hsplit : negative = (x.toBits.toNat / signUnit % 2 == 1) ∧ IsFinite m e ∧
        x.toBits.toNat % signUnit = magnitudeBits m e := by
      by_cases hzero : x.toBits.toNat / fractionUnit % 2048 = 0
      · rw [if_pos hzero] at h
        cases h
        refine ⟨rfl, ⟨?_, le_refl _, by decide, fun hless => absurd hless (lt_irrefl _)⟩, ?_⟩ <;>
          simp only [magnitudeBits, minExponent, fractionUnit, signUnit] at * <;> omega
      · rw [if_neg hzero] at h
        cases h
        refine ⟨rfl, ⟨?_, ?_, ?_, fun _ => Nat.le_add_right _ _⟩, ?_⟩ <;>
          simp only [magnitudeBits, minExponent, fractionUnit, signUnit] at * <;> omega
    obtain ⟨rfl, hfinite, hbits⟩ := hsplit
    refine ⟨isFinite_iff.mpr hexponent, hfinite, ?_⟩
    rw [← Float.toBits_inj, ← UInt64.toNat_inj, toBits_assemble hfinite.magnitudeBits_lt, ← hbits]
    exact hsign

end Binary64

end ResourceQuery
