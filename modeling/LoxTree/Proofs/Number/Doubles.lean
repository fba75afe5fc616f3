import LoxTree.Number.Binary64
import Mathlib

/-!
# Doubles and their bits

A double is its 64 bits, of which the highest is the sign and the others are the magnitude; the only
exception is NaN, of which there is one. The bits fall into three fields, and the sign is one of
them, so that a double is negated by changing the sign alone.

* `ofMagnitude_magnitude`: a double is the double of its sign and magnitude.
* `eq_nan`: there is only one double whose magnitude is beyond the infinities'.
* `neg_ofMagnitude`: negation sets the sign of a finite double that has none.
-/

namespace LoxTree.Number

open Float.Model Float.Model.UnpackedFloat

/-! ### The fields of 64 bits -/

variable (b : BitVec Format.binary64.numBits)

theorem toNat_unpackMantissa : (unpackMantissa b).toNat = b.toNat % 2 ^ 52 := by
  simp [unpackMantissa, BitVec.extractLsb_toNat]

theorem toNat_unpackExponent : (unpackExponent b).toNat = b.toNat / 2 ^ 52 % 2 ^ 11 := by
  simp [unpackExponent, BitVec.extractLsb_toNat, Nat.shiftRight_eq_div_pow]

theorem toNat_unpackSign : (unpackSign b).toNat = b.toNat / 2 ^ 63 := by
  have h : b.toNat < 2 ^ 64 := b.isLt
  simp only [unpackSign, BitVec.toNat_cast, BitVec.extractLsb_toNat, Nat.shiftRight_eq_div_pow]
  omega

/-! ### Signs and magnitudes -/

/-- A double is the double of its sign and magnitude. -/
theorem ofMagnitude_magnitude (x : Float) : ofMagnitude (isNegative x) (magnitude x) = x := by
  have hlt : x.toBits.toNat < 2 ^ 64 := x.toBits.toNat_lt
  have hbits : magnitude x + (if isNegative x then signBit else 0) = x.toBits.toNat := by
    unfold magnitude isNegative signBit
    by_cases hneg : 0x8000000000000000 ≤ x.toBits.toNat
    · rw [if_pos (by simpa using hneg)]
      omega
    · rw [if_neg (by simpa using hneg)]
      omega
  unfold ofMagnitude
  rw [hbits, UInt64.ofNat_toNat, Float.ofBits_toBits]

/-- There is only one NaN. -/
theorem eq_nan {x : Float} (h : infinityBits < magnitude x) : x = ofMagnitude false nanBits := by
  have hvalid : Format.binary64.Valid x.toBits.toBitVec := x.toModel.valid
  have hlt : x.toBits.toBitVec.toNat < 2 ^ 64 := x.toBits.toNat_lt
  have hmag : 0x7FF0000000000000 < x.toBits.toBitVec.toNat % 0x8000000000000000 := h
  have hnan : x.toBits.toBitVec = packedNaN Format.binary64 := by
    apply hvalid.eq_packedNaN
    · apply BitVec.eq_of_toNat_eq
      rw [toNat_unpackExponent]
      show x.toBits.toBitVec.toNat / 2 ^ 52 % 2 ^ 11 = 2047
      omega
    · intro hzero
      have hman := toNat_unpackMantissa x.toBits.toBitVec
      rw [hzero] at hman
      have hman : 0 = x.toBits.toBitVec.toNat % 2 ^ 52 := hman
      omega
  have hbits : x.toBits = UInt64.ofNat nanBits := UInt64.eq_of_toBitVec_eq hnan
  rw [← Float.ofBits_toBits x, hbits]
  rfl

/-! ### Negation -/

section

variable {b} {b' : BitVec Format.binary64.numBits}

/-- Fields that differ in the sign alone unpack to numbers that do. -/
theorem unpack_of_fields (hexp : unpackExponent b' = unpackExponent b)
    (hman : unpackMantissa b' = unpackMantissa b)
    (hsign : Sign.ofBitVec (unpackSign b') = -Sign.ofBitVec (unpackSign b)) :
    unpack Format.binary64 b' = (unpack Format.binary64 b).neg := by
  unfold UnpackedFloat.unpack
  simp only [hexp, hman, hsign]
  split
  · split <;> rfl
  · split
    · split <;> rfl
    · rfl

/-- Setting the sign bit negates. -/
theorem unpack_of_signBit (h : b'.toNat = b.toNat + signBit) :
    unpack Format.binary64 b' = (unpack Format.binary64 b).neg := by
  have hlt : b'.toNat < 2 ^ 64 := b'.isLt
  unfold signBit at h
  apply unpack_of_fields
  · apply BitVec.eq_of_toNat_eq
    rw [toNat_unpackExponent, toNat_unpackExponent, h]
    omega
  · apply BitVec.eq_of_toNat_eq
    rw [toNat_unpackMantissa, toNat_unpackMantissa, h]
    omega
  · have hpos : unpackSign b = 0#1 := by
      apply BitVec.eq_of_toNat_eq
      rw [toNat_unpackSign, BitVec.toNat_ofNat]
      omega
    have hneg : unpackSign b' = 1#1 := by
      apply BitVec.eq_of_toNat_eq
      rw [toNat_unpackSign, BitVec.toNat_ofNat]
      omega
    rw [hpos, hneg]
    rfl

/-- Only the bits of NaN are in question. -/
theorem valid_of_finite (h : b.toNat < infinityBits) : Format.binary64.Valid b := by
  refine ⟨fun hexp _ => ?_⟩
  have hones := toNat_unpackExponent b
  rw [hexp] at hones
  have hones : 2047 = b.toNat / 2 ^ 52 % 2 ^ 11 := hones
  unfold infinityBits at h
  omega

end

/-- Negation sets the sign of a finite double that has none. -/
theorem neg_ofMagnitude {m : Nat} (h : m < infinityBits) :
    -ofMagnitude false m = ofMagnitude true m := by
  have hlt : m + signBit < UInt64.size := by
    unfold infinityBits at h
    unfold signBit UInt64.size
    omega
  have hbits : (UInt64.ofNat m).toBitVec.toNat = m := by
    rw [UInt64.toNat_toBitVec, UInt64.toNat_ofNat_of_lt' (Nat.lt_of_add_right_lt hlt)]
  have hbits' : (UInt64.ofNat (m + signBit)).toBitVec.toNat = m + signBit := by
    rw [UInt64.toNat_toBitVec, UInt64.toNat_ofNat_of_lt' hlt]
  have hpack := pack_unpack_of_valid (valid_of_finite (hbits.symm ▸ h))
  have hneg := unpack_of_signBit (hbits'.trans (by rw [hbits]))
  show Float.ofModel (Float.Model.pack (UnpackedFloat.unpack Format.binary64
      (UnpackedFloat.pack Format.binary64
        (UnpackedFloat.unpack Format.binary64 (UInt64.ofNat m).toBitVec))).neg) =
    Float.ofModel (Float.Model.pack
      (UnpackedFloat.unpack Format.binary64 (UInt64.ofNat (m + signBit)).toBitVec))
  rw [hpack, hneg]

end LoxTree.Number
