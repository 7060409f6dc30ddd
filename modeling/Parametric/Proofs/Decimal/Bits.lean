import Mathlib
import Parametric.Decimal.Numeral

/-!
# Doubles and their codes

The codes up to that of infinity are the bit patterns of the doubles without a sign. Such a pattern
is valid (`valid_of_le`), so each of these codes is the code of its double (`codeOf_ofCode`), and a
double without a sign is that of its code (`ofCode_codeOf`). The code of a double is its exponent
before its mantissa (`codeOf_eq`): it tells which doubles are finite (`isFinite_iff`), and the other
sign leaves it (`codeOf_neg`).
-/

namespace Parametric.Decimal

open Float.Model Float.Model.UnpackedFloat

theorem toNat_unpackExponent (bits : UInt64) :
    (@unpackExponent .binary64 bits.toBitVec).toNat = bits.toNat / 2 ^ 52 % 2 ^ 11 := by
  simp [unpackExponent_def, Nat.shiftRight_eq_div_pow]

theorem toNat_unpackMantissa (bits : UInt64) :
    (@unpackMantissa .binary64 bits.toBitVec).toNat = bits.toNat % 2 ^ 52 := by
  simp [unpackMantissa_def]

/-- A code up to that of infinity has all bits of the exponent only when it is that of infinity, and
then it has no mantissa. -/
theorem valid_of_le {bits : UInt64} (h : bits.toNat ≤ infinityCode) :
    Format.binary64.Valid bits.toBitVec := by
  refine ⟨fun he hm => absurd ?_ hm⟩
  have hmantissa := toNat_unpackMantissa bits
  have hones : bits.toNat / 2 ^ 52 % 2 ^ 11 = 2047 := by
    rw [← toNat_unpackExponent, he]
    rfl
  refine BitVec.eq_of_toNat_eq ?_
  change bits.toNat ≤ 2047 * 2 ^ 52 at h
  change (@unpackMantissa .binary64 bits.toBitVec).toNat = 0
  omega

theorem toBits_ofBits {bits : UInt64} (hvalid : Format.binary64.Valid bits.toBitVec) :
    (Float.ofBits bits).toBits = bits :=
  UInt64.toBitVec_inj.1 (pack_unpack_of_valid hvalid)

theorem isNaN_of_le {x : Float} (h : x.toBits.toNat ≤ infinityCode) : x.isNaN = false := by
  rw [Float.isNaN_eq_decide_eq_nan, decide_eq_false_iff_not]
  rintro rfl
  revert h
  decide

/-- A double without a sign is that of its code. -/
theorem ofCode_codeOf {x : Float} (h : isNegative x = false) : ofCode false (codeOf x) = x := by
  have hlt : x.toBits.toNat < signBit := by simpa [isNegative] using h
  have hbits : UInt64.ofNat (codeOf x + if false then signBit else 0) = x.toBits := by
    rw [codeOf, Nat.mod_eq_of_lt hlt]
    exact UInt64.ofNat_toNat
  rw [ofCode, hbits, Float.ofBits_toBits]

/-- A code up to that of infinity is the code of its double. -/
theorem codeOf_ofCode {code : Nat} (h : code ≤ infinityCode) :
    codeOf (ofCode false code) = code ∧ isNegative (ofCode false code) = false := by
  have hlt : code < signBit := Nat.lt_of_le_of_lt h (by decide)
  have hnat : (UInt64.ofNat code).toNat = code :=
    UInt64.toNat_ofNat_of_lt (Nat.lt_trans hlt (by decide))
  have hbits : (ofCode false code).toBits = UInt64.ofNat code :=
    toBits_ofBits (valid_of_le (hnat.symm ▸ h))
  simp only [codeOf, isNegative, hbits, hnat, Nat.mod_eq_of_lt hlt, true_and]
  simpa using hlt

/-! ## Exponents and signs -/

theorem codeOf_eq (x : Float) : codeOf x =
    (@unpackExponent .binary64 x.toBits.toBitVec).toNat * 2 ^ 52 +
      (@unpackMantissa .binary64 x.toBits.toBitVec).toNat := by
  rw [toNat_unpackExponent, toNat_unpackMantissa, codeOf, signBit]
  omega

/-- The finite doubles are those whose code is below that of infinity. -/
theorem isFinite_iff (x : Float) : x.isFinite = true ↔ codeOf x < infinityCode := by
  have hexponent : x.isFinite = true ↔ @unpackExponent .binary64 x.toBits.toBitVec ≠ -1#_ := by
    change (UnpackedFloat.unpack .binary64 x.toBits.toBitVec).isFinite = true ↔ _
    unfold UnpackedFloat.unpack
    dsimp only
    split
    next hones =>
      split <;> simp only [hones, UnpackedFloat.isFinite, ne_eq, not_true, Bool.false_eq_true]
    next hones =>
      refine ⟨fun _ => hones, fun _ => ?_⟩
      split
      · split <;> rfl
      · rfl
  have hexponentLt : (@unpackExponent .binary64 x.toBits.toBitVec).toNat < 2 ^ 11 := BitVec.isLt _
  have hmantissaLt : (@unpackMantissa .binary64 x.toBits.toBitVec).toNat < 2 ^ 52 := BitVec.isLt _
  rw [hexponent, codeOf_eq, infinityCode, ne_eq, ← BitVec.toNat_inj]
  change ¬_ = 2047 ↔ _
  omega

/-- The other sign leaves the exponent and the mantissa. -/
theorem pack_neg (format : Format) (f : UnpackedFloat) : ∃ s s' exponent mantissa,
    UnpackedFloat.pack format f = packComponents format s exponent mantissa ∧
      UnpackedFloat.pack format f.neg = packComponents format s' exponent mantissa := by
  cases f with
  | notANumber => exact ⟨_, _, _, _, rfl, rfl⟩
  | infinity s => exact ⟨_, _, _, _, rfl, rfl⟩
  | zero s => exact ⟨_, _, _, _, rfl, rfl⟩
  | finite s m e hm =>
    simp only [UnpackedFloat.neg, UnpackedFloat.pack]
    split
    · exact ⟨_, _, _, _, rfl, rfl⟩
    · split <;> exact ⟨_, _, _, _, rfl, rfl⟩

theorem codeOf_neg (x : Float) : codeOf (-x) = codeOf x := by
  have hself : UnpackedFloat.pack .binary64 x.toModel.unpack = x.toBits.toBitVec :=
    pack_unpack_of_valid x.toModel.valid
  have hneg : (-x).toBits.toBitVec = UnpackedFloat.pack .binary64 x.toModel.unpack.neg := rfl
  obtain ⟨s, s', exponent, mantissa, hpack, hpack'⟩ := pack_neg .binary64 x.toModel.unpack
  rw [codeOf_eq, codeOf_eq, hneg, hpack', ← hself, hpack]
  simp only [unpackExponent_packComponents, unpackMantissa_packComponents]

end Parametric.Decimal
