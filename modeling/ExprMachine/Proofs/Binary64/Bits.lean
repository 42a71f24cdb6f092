/-
  ExprMachine.Proofs.Binary64.Bits

  Floats and their bits. A float is given back by its bits, and all bits are given back by
  their float, except those of what is not a number, of which there is one float only.
-/
import ExprMachine.Proofs.Binary64.Unpacked

namespace ExprMachine.Binary64

open Float.Model (UnpackedFloat Format)
open Float.Model.UnpackedFloat

variable {first second : Nat} {bits : UInt64}

theorem bits_of_readBits_infinite {bits : Nat} (bound : bits < 2 ^ 64) {negative : Bool}
    (h : readBits bits = .infinite negative) :
    bits = (if negative then 2 ^ 63 else 0) + 2047 * 2 ^ 52 := by
  rw [readBits] at h
  split at h
  · split at h <;> cases h
    simp only [decide_eq_true_eq]
    split <;> omega
  · split at h <;> cases h

/-- Bits that stand for the same number are the same. -/
theorem eq_of_readBits (first_lt : first < 2 ^ 64) (second_lt : second < 2 ^ 64)
    (same : readBits first = readBits second) (number : readBits first ≠ .notANumber) :
    first = second := by
  cases h : readBits first with
  | notANumber => exact absurd h number
  | infinite negative =>
    rw [bits_of_readBits_infinite first_lt h, bits_of_readBits_infinite second_lt (same ▸ h)]
  | finite negative significand scale =>
    rw [bits_of_readBits first_lt h, bits_of_readBits second_lt (same ▸ h)]

/-- Bits that are unpacked and packed again stand for the same. -/
theorem readBits_pack_unpack (bits : BitVec Format.binary64.numBits) :
    readBits (pack Format.binary64 (unpack Format.binary64 bits)).toNat = readBits bits.toNat := by
  rw [readBits_toNat bits]
  have bounds {sign : Sign} {mantissa : Nat} {exponent : Int} {positive : 0 < mantissa}
      (h : unpack Format.binary64 bits = .finite sign mantissa exponent positive) :=
    @bounds_of_readBits bits.toNat _ _ _ ((readBits_toNat bits).trans (congrArg _ h))
  match hunpack : unpack Format.binary64 bits with
  | .notANumber => rfl
  | .infinity .positive | .infinity .negative => rfl
  | .zero .positive | .zero .negative => rfl
  | .finite sign mantissa exponent positive =>
    have fine := exponent_of_unpack hunpack
    obtain ⟨bound, normal, inRange⟩ := bounds hunpack
    obtain ⟨scale, rfl⟩ : ∃ scale : Nat, exponent = scale - 1074 :=
      ⟨(exponent + 1074).toNat, by omega⟩
    have scale_eq : ((scale : Int) - 1074 + 1074).toNat = scale := by omega
    rw [scale_eq] at normal inRange
    rw [Reading.ofUnpacked, scale_eq]
    exact @read_pack_finite _ _ _ positive bound normal inRange

theorem read_ofBits (bits : UInt64) : read (.ofBits bits) = readBits bits.toNat :=
  readBits_pack_unpack bits.toBitVec

/-- The bits of a number are those of its float. -/
theorem toBits_ofBits (number : read (.ofBits bits) ≠ .notANumber) :
    (Float.ofBits bits).toBits = bits := by
  have same : readBits (Float.ofBits bits).toBits.toNat = readBits bits.toNat := read_ofBits bits
  exact UInt64.toNat.inj (eq_of_readBits (Float.ofBits bits).toBits.toBitVec.isLt
    bits.toBitVec.isLt same number)

/-- A float is that of its bits: what is not a number has only one float. -/
theorem ofBits_toBits (x : Float) : Float.ofBits x.toBits = x := by
  obtain ⟨⟨bits, valid⟩⟩ := x
  have same : (Float.ofBits bits).toBits = bits := by
    by_cases number : read (.ofBits bits) = .notANumber
    · rw [read_ofBits, readBits] at number
      split at number
      · rename_i top
        split at number
        · cases number
        rename_i whole
        have only := valid.eq_packedNaN
          (BitVec.eq_of_toNat_eq ((toNat_unpackExponent bits.toBitVec).trans top))
          (fun zero => whole ((toNat_unpackMantissa bits.toBitVec).symm.trans (congrArg _ zero)))
        obtain rfl : bits = ⟨packedNaN Format.binary64⟩ := congrArg UInt64.ofBitVec only
        rfl
      · split at number <;> cases number
    · exact toBits_ofBits number
  exact eq_of_toBits_eq same

end ExprMachine.Binary64
