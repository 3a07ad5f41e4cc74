import Mathlib
import SceneScript.Proofs.Number.Magnitudes

/-!
The parts of a number and the number itself: a finite number has the parts that it was put together
from.
-/

namespace SceneScript.Binary64

open Float.Model Float.Model.UnpackedFloat

/-- Bits that are not among those for no number are the bits of a number. -/
theorem toBits_ofBits {bits : UInt64} (finite : bits.toNat / leadingBit % 2048 ≠ 2047) :
    (Float.ofBits bits).toBits = bits := by
  have number : @isNaNBits Format.binary64 bits.toBitVec = false := by
    rw [isNaNBits, decide_eq_false]
    rintro ⟨full, -⟩
    have power := congrArg BitVec.toNat full
    simp only [unpackExponent, BitVec.toNat_cast, BitVec.extractLsb_toNat] at power
    rw [Nat.shiftRight_eq_div_pow] at power
    exact finite power
  show UInt64.ofBitVec (UnpackedFloat.pack Format.binary64
    (UnpackedFloat.unpack Format.binary64 bits.toBitVec)) = bits
  rw [pack_unpack, number]
  rfl

theorem ofFloat_toFloat {mantissa : Nat} {exponent : Int} (canonical : Canonical mantissa exponent)
    (negative : Bool) :
    ofFloat (toFloat (.finite negative mantissa exponent)) =
      .finite negative mantissa exponent := by
  have most := canonical.finiteBits_lt
  rw [infinityBits_eq] at most
  have read := ofBits_finiteBits canonical negative
  have whole : signBit negative + finiteBits mantissa exponent < 2 ^ 64 := by
    rw [signBit_eq]
    split <;> omega
  have same : (UInt64.ofNat (bits (.finite negative mantissa exponent))).toNat =
      signBit negative + finiteBits mantissa exponent := UInt64.toNat_ofNat_of_lt' whole
  rw [ofFloat, toFloat, toBits_ofBits, same, read]
  rw [same, leadingBit_eq, signBit_eq]
  split <;> omega

end SceneScript.Binary64
