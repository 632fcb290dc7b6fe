import Mathlib
import MixedInteger.Scalar

/-!
# Floating-point numbers as words

A floating-point number is a word of 64 bits that is taken apart for every operation and put
together again afterwards.  Nothing is lost on the way, so an operation that leaves the parts
alone leaves the number alone.  Adding a number to zero is such an operation, up to the sign
of a zero.
-/

namespace MixedInteger

open Float.Model Float.Model.UnpackedFloat

/-! ## Taking a word apart -/

theorem toBitVec_signOf (bit : BitVec 1) : (Sign.ofBitVec bit).toBitVec = bit := by
  rw [Sign.ofBitVec]
  split
  · rename_i hpositive
    rw [hpositive]
    rfl
  · rename_i hnegative
    have hone : bit = 1#1 := by bv_omega
    rw [hone]
    rfl

/-- A word with the given exponent and mantissa is put together from them and its sign. -/
theorem packComponents_of_parts {word : BitVec Format.binary64.numBits}
    {exponent : BitVec Format.binary64.exponentBits}
    {mantissa : BitVec Format.binary64.mantissaBitsWithoutImplicit}
    (hexponent : unpackExponent word = exponent) (hmantissa : unpackMantissa word = mantissa) :
    packComponents .binary64 (Sign.ofBitVec (unpackSign word)) exponent mantissa = word := by
  subst hexponent hmantissa
  rw [packComponents, toBitVec_signOf]
  apply BitVec.eq_of_getLsbD_eq
  intro i hi
  simp only [unpackSign, unpackExponent, unpackMantissa, BitVec.getLsbD_append,
    BitVec.getLsbD_cast, BitVec.getLsbD_extractLsb]
  grind

section Finite

variable {word : BitVec Format.binary64.numBits}

/-- Below the smallest normal number the exponent is not stored. -/
theorem pack_subnormal (hexponent : unpackExponent word = 0#11)
    (hpositive : 0 < (unpackMantissa word).toNat) :
    UnpackedFloat.pack .binary64 (.finite (Sign.ofBitVec (unpackSign word))
      (unpackMantissa word).toNat (-1074) hpositive) = word := by
  have hbound : (unpackMantissa word).toNat < 2 ^ 52 := (unpackMantissa word).isLt
  have hbits : ¬ (unpackMantissa word).toNat.log2 + 1 = Format.binary64.mantissaBits := by
    have hlog : (unpackMantissa word).toNat.log2 < 52 := (Nat.log2_lt (by omega)).2 hbound
    have hformat : Format.binary64.mantissaBits = 53 := rfl
    omega
  rw [UnpackedFloat.pack]
  dsimp only
  rw [if_neg (by decide), if_neg hbits]
  apply packComponents_of_parts hexponent
  rw [BitVec.ofNat_toNat, BitVec.setWidth_eq]

/-- A normal number stores its exponent, and its mantissa without the leading bit. -/
theorem pack_normal (hfinite : unpackExponent word ≠ -1#11)
    (hpositive : 0 < (1#1 ++ unpackMantissa word).toNat) :
    UnpackedFloat.pack .binary64 (.finite (Sign.ofBitVec (unpackSign word))
      (1#1 ++ unpackMantissa word).toNat ((unpackExponent word).toNat - 1075) hpositive) =
        word := by
  have hbound : (unpackMantissa word).toNat < 2 ^ 52 := (unpackMantissa word).isLt
  have hleading : (1#1 ++ unpackMantissa word).toNat = 2 ^ 52 + (unpackMantissa word).toNat := by
    change 2 ^ 52 ||| (unpackMantissa word).toNat = _
    rw [Nat.or_comm, Nat.or_two_pow_eq_add_of_lt hbound, Nat.add_comm]
  have hbits : (1#1 ++ unpackMantissa word).toNat.log2 + 1 = Format.binary64.mantissaBits := by
    have hlog : (1#1 ++ unpackMantissa word).toNat.log2 = 52 := by
      rw [Nat.log2_eq_iff (by omega), hleading]
      omega
    rw [hlog]
    rfl
  have hbiased : (((unpackExponent word).toNat : Int) - 1075 +
      (Format.binary64.exponentBias : Nat) +
        (Format.binary64.mantissaBitsWithoutImplicit : Nat)).toNat =
          (unpackExponent word).toNat := by
    have hbias : ((Format.binary64.exponentBias : Nat) : Int) = 1023 := rfl
    have hwidth : ((Format.binary64.mantissaBitsWithoutImplicit : Nat) : Int) = 52 := rfl
    omega
  have htop : ¬ 2 ^ Format.binary64.exponentBits ≤ (unpackExponent word).toNat + 1 := by
    have hne : (unpackExponent word).toNat ≠ 2047 := fun heq =>
      hfinite (BitVec.eq_of_toNat_eq (heq.trans rfl))
    have hlt : (unpackExponent word).toNat < 2048 := (unpackExponent word).isLt
    have hformat : 2 ^ Format.binary64.exponentBits = 2048 := rfl
    omega
  rw [UnpackedFloat.pack]
  dsimp only
  rw [hbiased, if_neg htop, if_pos hbits]
  apply packComponents_of_parts
  · rw [BitVec.ofNat_toNat, BitVec.setWidth_eq]
  · apply BitVec.eq_of_toNat_eq
    rw [BitVec.toNat_ofNat, hleading]
    change _ = (2 ^ 52 + (unpackMantissa word).toNat) % 2 ^ 52
    omega

theorem pack_unpack_word (hvalid : Format.binary64.Valid word) :
    UnpackedFloat.pack .binary64 (UnpackedFloat.unpack .binary64 word) = word := by
  rw [UnpackedFloat.unpack]
  dsimp only
  split
  · rename_i hexponent
    split
    · rename_i hmantissa
      exact packComponents_of_parts hexponent hmantissa
    · rename_i hmantissa
      exact (hvalid.eq_packedNaN hexponent hmantissa).symm
  · rename_i hfinite
    split
    · rename_i hexponent
      split
      · rename_i hmantissa
        exact packComponents_of_parts hexponent hmantissa
      · have hzero : (unpackExponent word).toNat = 0 := by
          rw [hexponent]
          rfl
        rw [hzero]
        exact pack_subnormal hexponent _
    · exact pack_normal hfinite _

end Finite

/-- Taking a number apart and putting it together again gives the number back. -/
theorem pack_unpack (number : Float.Model) : Float.Model.pack number.unpack = number := by
  obtain ⟨word, hvalid⟩ := number
  have hword : UnpackedFloat.pack .binary64 (UnpackedFloat.unpack .binary64 word.toBitVec) =
      word.toBitVec := pack_unpack_word hvalid
  simp only [Float.Model.pack, Float.Model.unpack, hword]

/-! ## Adding to zero -/

/-- A number, with a zero losing its sign. -/
def unsignedZero (number : Float) : Float :=
  if number == 0 then 0 else number

theorem float_zero_add (number : Float) : 0 + number = unsignedZero number := by
  have hadd : 0 + number = .ofModel (.pack
      (UnpackedFloat.add .binary64 (.zero .positive) number.toModel.unpack)) := rfl
  have hbeq : (number == 0) =
      (number.toModel.unpack.compare (.zero .positive) == some .eq) := rfl
  have hback : Float.ofModel (.pack number.toModel.unpack) = number := by rw [pack_unpack]
  rw [hadd, unsignedZero, hbeq]
  cases hparts : number.toModel.unpack with
  | notANumber =>
    rw [hparts] at hback
    exact hback
  | infinity sign =>
    rw [hparts] at hback
    cases sign with
    | positive => exact hback
    | negative => exact hback
  | zero sign =>
    cases sign with
    | positive => rfl
    | negative => rfl
  | finite sign mantissa exponent hpositive =>
    rw [hparts] at hback
    cases sign with
    | positive => exact hback
    | negative => exact hback

end MixedInteger
