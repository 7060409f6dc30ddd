import Parametric.Proofs.Decimal.Bits
import Parametric.Proofs.Decimal.Nearest

/-!
# Whole numbers as doubles

Every natural below `2 ^ 53` is a double (`units_codeOf_ofNat`), so different ones are different
doubles (`ofNat_injOn`). Those below `2 ^ 64` are rounded to finite doubles at least
(`isFinite_ofNat`).
-/

namespace Parametric.Decimal

open Float.Model Float.Model.UnpackedFloat

/-! ## Rounding -/

theorem mantissa_shiftRight (em : ExtendedMantissa) (k : Nat) :
    (em >>> k).mantissa = em.mantissa / 2 ^ k := by
  induction k with
  | zero => exact (Nat.div_one _).symm
  | succ k ih =>
    have hstep : (em >>> (k + 1)).mantissa = (em >>> k).mantissa / 2 := rfl
    rw [hstep, ih, Nat.div_div_eq_div_mul, Nat.pow_succ]

/-- Nothing is lost when a mantissa is shifted by zeros. -/
theorem shiftRight_exact (m k : Nat) :
    ExtendedMantissa.ofMantissaAndAccuracy (m * 2 ^ k) .exact >>> k = ⟨m, false, false⟩ := by
  induction k generalizing m with
  | zero =>
    rw [Nat.pow_zero, Nat.mul_one]
    rfl
  | succ k ih =>
    rw [Nat.pow_succ', ← Nat.mul_assoc]
    show (ExtendedMantissa.ofMantissaAndAccuracy (m * 2 * 2 ^ k) .exact >>> k).shiftRightOne = _
    rw [ih, ExtendedMantissa.shiftRightOne]
    simp

/-- Rounding adds one to a mantissa at the most. -/
theorem roundedMantissa_bounds (em : ExtendedMantissa) :
    em.mantissa ≤ em.roundedMantissa ∧ em.roundedMantissa ≤ em.mantissa + 1 := by
  obtain ⟨m, round, sticky⟩ := em
  unfold ExtendedMantissa.roundedMantissa
  cases round <;> cases sticky <;>
    simp only [ExtendedMantissa.accuracy, Accuracy.roundToNearestEven] <;> omega

/-- A mantissa of 53 bits and `k` more is shifted by `k`. -/
theorem shiftToTargetExponent_eq {m k : Nat} {e : Int} (hlog : m.log2 = 52 + k)
    (he : -1074 ≤ e + k) (accuracy : Accuracy) :
    shiftToTargetExponent .binary64 m e accuracy =
      (ExtendedMantissa.ofMantissaAndAccuracy m accuracy >>> k, e + k) := by
  have hbits : (Format.binary64.mantissaBits : Int) = 53 := rfl
  have hmin : Format.binary64.minExponent = -1074 := rfl
  have htarget : Format.binary64.targetExponent (totalExponent m e) = e + k := by
    rw [Format.targetExponent, totalExponent, hbits, hmin, hlog]
    omega
  have hamount : (e + k - e).toNat = k := by omega
  unfold shiftToTargetExponent shiftToExponent
  simp only [htarget, hamount]

/-- A mantissa of 53 bits stays when it is rounded. -/
theorem roundWithAccuracy_exact {m k : Nat} {e : Int} (hm : 0 < m) (hlog : m.log2 = 52)
    (he : -1074 ≤ e + k) : roundWithAccuracy .binary64 .positive (m * 2 ^ k) e .exact =
      .finite .positive m (e + k) hm := by
  have hlog' : (m * 2 ^ k).log2 = 52 + k := by rw [log2_mul_two_pow hm.ne', hlog]
  have hround : (⟨m, false, false⟩ : ExtendedMantissa).roundedMantissa = m := rfl
  have hstay : ExtendedMantissa.ofMantissaAndAccuracy m .exact >>> 0 = ⟨m, false, false⟩ := rfl
  unfold roundWithAccuracy
  rw [shiftToTargetExponent_eq hlog' he]
  dsimp only
  rw [shiftRight_exact, hround, shiftToTargetExponent_eq (k := 0) (by omega) (by omega), hstay]
  simp only [Nat.cast_zero, Int.add_zero]
  exact dif_neg hm.ne'

/-- A mantissa of 53 bits or more has 53 bits when it is rounded, and an exponent that is larger by
one at the most. -/
theorem roundWithAccuracy_leading {m k : Nat} {e : Int} (hlog : m.log2 = 52 + k)
    (he : -1074 ≤ e + k) : ∃ (m' : Nat) (e' : Int) (h : 0 < m'),
      roundWithAccuracy .binary64 .positive m e .exact = .finite .positive m' e' h ∧
        m'.log2 = 52 ∧ e + k ≤ e' ∧ e' ≤ e + k + 1 := by
  have hm : m ≠ 0 := by
    rintro rfl
    rw [Nat.log2_zero] at hlog
    omega
  obtain ⟨hlower, hupper⟩ := (Nat.log2_eq_iff hm).1 hlog
  unfold roundWithAccuracy
  rw [shiftToTargetExponent_eq hlog he]
  dsimp only
  have hmantissa : (ExtendedMantissa.ofMantissaAndAccuracy m .exact >>> k).mantissa = m / 2 ^ k :=
    mantissa_shiftRight _ k
  generalize ExtendedMantissa.ofMantissaAndAccuracy m .exact >>> k = em at hmantissa ⊢
  obtain ⟨hle, hge⟩ := roundedMantissa_bounds em
  have hquotient : 2 ^ 52 ≤ em.mantissa ∧ em.mantissa < 2 ^ 53 := by
    rw [hmantissa, Nat.le_div_iff_mul_le (Nat.two_pow_pos k),
      Nat.div_lt_iff_lt_mul (Nat.two_pow_pos k), ← Nat.pow_add, ← Nat.pow_add]
    exact ⟨hlower, by rwa [Nat.add_right_comm 52 1 k]⟩
  generalize em.roundedMantissa = r at hle hge ⊢
  -- The mantissa has overflowed when it was rounded up to a power of two.
  by_cases hover : r = 2 ^ 53
  · have hlogr : r.log2 = 52 + 1 := by rw [hover, Nat.log2_two_pow]
    have hhalf : (ExtendedMantissa.ofMantissaAndAccuracy r .exact >>> 1).mantissa = 2 ^ 52 := by
      rw [mantissa_shiftRight, hover]
      rfl
    rw [shiftToTargetExponent_eq hlogr (by omega)]
    simp only [hhalf]
    exact ⟨2 ^ 52, e + k + 1, by decide, rfl, Nat.log2_two_pow, by omega, by omega⟩
  · have hne : r ≠ 0 := by omega
    have hlogr : r.log2 = 52 + 0 := (Nat.log2_eq_iff hne).2 ⟨by omega, by omega⟩
    have hstay : (ExtendedMantissa.ofMantissaAndAccuracy r .exact >>> 0).mantissa = r := rfl
    rw [shiftToTargetExponent_eq hlogr (by omega)]
    simp only [hstay, Nat.cast_zero, Int.add_zero]
    exact ⟨r, e + k, Nat.pos_of_ne_zero hne, dif_neg hne, hlogr, by omega, by omega⟩

/-! ## Packing -/

theorem unpackSign_packComponents (format : Format) (s : Sign) (exponent mantissa) :
    unpackSign (packComponents format s exponent mantissa) = s.toBitVec := by
  refine BitVec.eq_of_getLsbD_eq fun i hi => ?_
  obtain rfl : i = 0 := by omega
  simp [unpackSign, packComponents, BitVec.getLsbD_append, BitVec.getElem_append]

theorem unpack_packComponents (format : Format) {exponent} (hzero : exponent ≠ 0#_)
    (hones : exponent ≠ -1#_) (mantissa) :
    UnpackedFloat.unpack format (packComponents format .positive exponent mantissa) =
      .finite .positive (1#1 ++ mantissa).toNat
        (exponent.toNat - (format.exponentBias + format.mantissaBitsWithoutImplicit))
        (by simp [BitVec.toNat_append]) := by
  have hsign : Sign.ofBitVec Sign.positive.toBitVec = .positive := rfl
  unfold UnpackedFloat.unpack
  simp only [unpackExponent_packComponents, unpackMantissa_packComponents,
    unpackSign_packComponents, if_neg hones, if_neg hzero, hsign]

theorem finite_congr {m m' : Nat} {e e' : Int} (hm : 0 < m) (hmantissa : m' = m)
    (hexponent : e' = e) :
    ∀ h', UnpackedFloat.finite .positive m' e' h' = .finite .positive m e hm := by
  subst hmantissa hexponent
  exact fun _ => rfl

section

variable {m : Nat} {e : Int} (hm : 0 < m) (hlog : m.log2 = 52) (hlow : -1074 ≤ e) (hhigh : e ≤ 971)
include hlog hlow hhigh

/-- A mantissa with its leading bit in place is packed without that bit. -/
theorem pack_leading : UnpackedFloat.pack .binary64 (.finite .positive m e hm) =
    packComponents .binary64 .positive (BitVec.ofNat 11 (e + 1075).toNat) (BitVec.ofNat 52 m) := by
  have hbias : e + (Format.binary64.exponentBias : Int) +
      (Format.binary64.mantissaBitsWithoutImplicit : Int) = e + 1075 := by
    show e + 1023 + 52 = e + 1075
    omega
  have hinfinity : ¬ 2 ^ Format.binary64.exponentBits ≤ (e + 1075).toNat + 1 := by
    show ¬ 2 ^ 11 ≤ (e + 1075).toNat + 1
    omega
  have hnormal : m.log2 + 1 = Format.binary64.mantissaBits := by
    rw [hlog]
    rfl
  unfold UnpackedFloat.pack
  dsimp only
  rw [hbias, if_neg hinfinity, if_pos hnormal]

theorem codeOf_pack :
    codeOf (.ofModel (.pack (.finite .positive m e hm))) = (e + 1074).toNat * binade + m := by
  obtain ⟨hlower, hupper⟩ := (Nat.log2_eq_iff hm.ne').1 hlog
  have hbits : (Float.ofModel (.pack (.finite .positive m e hm))).toBits.toBitVec =
      UnpackedFloat.pack .binary64 (.finite .positive m e hm) := rfl
  rw [codeOf_eq, hbits, pack_leading hm hlog hlow hhigh, unpackExponent_packComponents,
    unpackMantissa_packComponents, BitVec.toNat_ofNat, BitVec.toNat_ofNat]
  show (e + 1075).toNat % 2 ^ 11 * 2 ^ 52 + m % 2 ^ 52 = (e + 1074).toNat * 2 ^ 52 + m
  omega

theorem unpack_pack :
    (Float.Model.pack (.finite .positive m e hm)).unpack = .finite .positive m e hm := by
  obtain ⟨hlower, hupper⟩ := (Nat.log2_eq_iff hm.ne').1 hlog
  have hexponent : (BitVec.ofNat 11 (e + 1075).toNat).toNat = (e + 1075).toNat := by
    rw [BitVec.toNat_ofNat]
    exact Nat.mod_eq_of_lt (by omega)
  have hzero : BitVec.ofNat 11 (e + 1075).toNat ≠ 0#11 := by
    rw [ne_eq, ← BitVec.toNat_inj, hexponent, BitVec.toNat_zero]
    omega
  have hones : BitVec.ofNat 11 (e + 1075).toNat ≠ -1#11 := by
    rw [ne_eq, ← BitVec.toNat_inj, hexponent]
    change (e + 1075).toNat ≠ 2047
    omega
  have hmantissa : (1#1 ++ BitVec.ofNat 52 m).toNat = m := by
    rw [BitVec.toNat_append, ← Nat.shiftLeft_add_eq_or_of_lt (BitVec.isLt _), BitVec.toNat_ofNat,
      Nat.shiftLeft_eq]
    change 1 * 2 ^ 52 + m % 2 ^ 52 = m
    omega
  change UnpackedFloat.unpack .binary64
    (UnpackedFloat.pack .binary64 (.finite .positive m e hm)) = _
  rw [pack_leading hm hlog hlow hhigh, unpack_packComponents .binary64 hzero hones]
  refine finite_congr hm hmantissa ?_ _
  rw [hexponent]
  change ((e + 1075).toNat - (1023 + 52) : Int) = e
  omega

end

theorem unpack_one : (Float.ofBits 0x3FF0000000000000).toModel.unpack =
    .finite .positive (2 ^ 52) (-52) (by decide) := by
  have hone : Float.ofBits 0x3FF0000000000000 =
      .ofModel (.pack (.finite .positive (2 ^ 52) (-52) (by decide))) := by decide
  rw [hone]
  exact unpack_pack (by decide) Nat.log2_two_pow (by omega) (by omega)

/-! ## Naturals -/

/-- The bits of a natural below `2 ^ 53` can be moved up until the leading one is in place. -/
theorem log2_leading {n : Nat} (hpos : 0 < n) (h : n < 2 ^ 53) :
    n.log2 ≤ 52 ∧ (n * 2 ^ (52 - n.log2)).log2 = 52 := by
  have hbits : n.log2 < 53 := (Nat.log2_lt hpos.ne').2 h
  rw [log2_mul_two_pow hpos.ne']
  omega

theorem toFloat_eq {n : Nat} (hpos : 0 < n) (h : n < 2 ^ 53) :
    n.toUInt64.toFloat = .ofModel (.pack (.finite .positive (n * 2 ^ (52 - n.log2)) (n.log2 - 52)
      (Nat.mul_pos hpos (Nat.two_pow_pos _)))) := by
  have hnat : n.toUInt64.toNat = n := by
    show n % 2 ^ 64 = n
    exact Nat.mod_eq_of_lt (by omega)
  obtain ⟨hbits, hlog⟩ := log2_leading hpos h
  have htarget : Format.binary64.targetExponent (totalExponent n 0) = n.log2 - 52 := by
    rw [Format.targetExponent, totalExponent]
    change max ((n.log2 : Int) + 1 + 0 - 53) (-1074) = n.log2 - 52
    omega
  have hround : UnpackedFloat.round .binary64 .positive n 0 =
      .finite .positive (n * 2 ^ (52 - n.log2)) (n.log2 - 52)
        (Nat.mul_pos hpos (Nat.two_pow_pos _)) := by
    have hamount : (0 - ((n.log2 : Int) - 52)).toNat = 52 - n.log2 := by omega
    have hexponent : (0 : Int) - (52 - n.log2 : Nat) = n.log2 - 52 := by omega
    unfold UnpackedFloat.round decreaseExponent
    simp only [htarget, hamount, hexponent, Nat.shiftLeft_eq]
    have hexact := roundWithAccuracy_exact (k := 0) (e := (n.log2 : Int) - 52)
      (Nat.mul_pos hpos (Nat.two_pow_pos (52 - n.log2))) hlog (by omega)
    simpa only [Nat.pow_zero, Nat.mul_one, Nat.cast_zero, Int.add_zero] using hexact
  have hnormalize : UnpackedFloat.ofUInt64 .binary64 n.toUInt64 =
      UnpackedFloat.round .binary64 .positive n 0 := by
    have hcompare : compare (n : Int) 0 = .gt := Int.compare_eq_gt.2 (by omega)
    unfold UnpackedFloat.ofUInt64 UnpackedFloat.ofNat UnpackedFloat.ofInt
      UnpackedFloat.normalize
    rw [hnat, hcompare]
    rfl
  show Float.ofModel (.pack (UnpackedFloat.ofUInt64 .binary64 n.toUInt64)) = _
  rw [hnormalize, hround]

theorem ofNat_eq {n : Nat} (hpos : 0 < n) (h : n < 2 ^ 53) :
    Float.ofNat n = .ofModel (.pack (.finite .positive (n * 2 ^ (52 - n.log2)) (n.log2 - 52)
      (Nat.mul_pos hpos (Nat.two_pow_pos _)))) := by
  obtain ⟨hbits, hlog⟩ := log2_leading hpos h
  have hproduct : Float.ofNat n = n.toUInt64.toFloat * Float.ofBits 0x3FF0000000000000 := by
    show Float.ofScientific n false 0 = _
    rw [Float.ofScientific, dif_pos ⟨h, Nat.zero_le _⟩]
    rfl
  have hmul : ∀ x y : Float,
      x * y = .ofModel (.pack (mul .binary64 x.toModel.unpack y.toModel.unpack)) := fun _ _ => rfl
  rw [hproduct, hmul, unpack_one, toFloat_eq hpos h, unpack_pack _ hlog (by omega) (by omega)]
  have hexact := roundWithAccuracy_exact (k := 52) (e := (n.log2 : Int) - 52 + -52)
    (Nat.mul_pos hpos (Nat.two_pow_pos (52 - n.log2))) hlog (by omega)
  have hexponent : (n.log2 : Int) - 52 + -52 + (52 : Nat) = n.log2 - 52 := by omega
  simp only [hexponent] at hexact
  exact congrArg (fun u => Float.ofModel (.pack u)) hexact

theorem codeOf_ofNat {n : Nat} (hpos : 0 < n) (h : n < 2 ^ 53) :
    codeOf (Float.ofNat n) = (n.log2 + 1022) * binade + n * 2 ^ (52 - n.log2) := by
  obtain ⟨hbits, hlog⟩ := log2_leading hpos h
  have hspacing : ((n.log2 : Int) - 52 + 1074).toNat = n.log2 + 1022 := by omega
  rw [ofNat_eq hpos h, codeOf_pack _ hlog (by omega) (by omega), hspacing]

/-- A natural below `2 ^ 53` is a double. -/
theorem units_codeOf_ofNat {n : Nat} (h : n < 2 ^ 53) :
    units (codeOf (Float.ofNat n)) = n * 2 ^ unitShift := by
  rcases Nat.eq_zero_or_pos n with rfl | hpos
  · rw [Nat.zero_mul]
    rfl
  obtain ⟨hbits, hlog⟩ := log2_leading hpos h
  obtain ⟨hlower, hupper⟩ := (Nat.log2_eq_iff (Nat.mul_pos hpos (Nat.two_pow_pos _)).ne').1 hlog
  have hspacing : spacing (codeOf (Float.ofNat n)) = n.log2 + 1022 := by
    rw [spacing, codeOf_ofNat hpos h, binade]
    omega
  have hshift : 52 - n.log2 + (n.log2 + 1022) = unitShift := by
    unfold unitShift
    omega
  rw [units, hspacing, codeOf_ofNat hpos h, Nat.add_sub_cancel_left, Nat.shiftLeft_eq,
    Nat.mul_assoc, ← Nat.pow_add, hshift]

/-- Different naturals below `2 ^ 53` are different doubles. -/
theorem ofNat_injOn {m n : Nat} (hm : m < 2 ^ 53) (hn : n < 2 ^ 53)
    (h : Float.ofNat m = Float.ofNat n) : m = n := by
  have hunits := units_codeOf_ofNat hm
  rw [h, units_codeOf_ofNat hn] at hunits
  exact (Nat.mul_right_cancel (Nat.two_pow_pos _) hunits).symm

/-- A natural times no power of ten is rounded. -/
theorem ofScientific_zero {n : Nat} (hpos : 0 < n) : UnpackedFloat.ofScientific .binary64 n 0 =
    roundWithAccuracy .binary64 .positive (n * 2 ^ 53) (-53) .exact := by
  have hbits : Format.binary64.mantissaBits = 53 := rfl
  have hsign : Sign.positive * Sign.positive = .positive := rfl
  have hsmall : ¬ (0 : Int) > 2 ^ Format.binary64.exponentBits := by decide
  have hlarge : ¬ (0 : Int) < -((2 ^ Format.binary64.exponentBits : Int) + n.log2) := by
    change ¬ (0 : Int) < -(2 ^ 11 + n.log2)
    omega
  unfold UnpackedFloat.ofScientific
  rw [dif_neg hpos.ne', if_neg hsmall, if_neg hlarge, if_pos le_rfl]
  simp only [UnpackedFloat.mul, hbits, hsign, Nat.shiftLeft_eq, Int.toNat_zero, Nat.pow_zero,
    Nat.mul_one, Int.add_zero]
  rfl

/-- A natural that fits into 64 bits is a finite double, if not an exact one. -/
theorem isFinite_ofNat {n : Nat} (h : n < 2 ^ 64) : (Float.ofNat n).isFinite = true := by
  rw [isFinite_iff]
  rcases Nat.eq_zero_or_pos n with rfl | hpos
  · decide
  by_cases hexact : n < 2 ^ 53
  · obtain ⟨hbits, hlog⟩ := log2_leading hpos hexact
    obtain ⟨-, hupper⟩ := (Nat.log2_eq_iff (Nat.mul_pos hpos (Nat.two_pow_pos _)).ne').1 hlog
    rw [codeOf_ofNat hpos hexact, binade, infinityCode]
    omega
  · have hlow : 53 ≤ n.log2 := (Nat.le_log2 hpos.ne').2 (Nat.le_of_not_lt hexact)
    have hhigh : n.log2 < 64 := (Nat.log2_lt hpos.ne').2 h
    have hlog : (n * 2 ^ 53).log2 = 52 + (n.log2 + 1) := by
      rw [log2_mul_two_pow hpos.ne']
      omega
    obtain ⟨m, e, hm, hround, hleading, hle, he⟩ :=
      roundWithAccuracy_leading (e := -53) hlog (by omega)
    have hof : Float.ofNat n = .ofModel (.pack (.finite .positive m e hm)) := by
      rw [← hround]
      show Float.ofScientific n false 0 = _
      rw [Float.ofScientific, dif_neg (fun hsmall => hexact hsmall.1)]
      exact congrArg (fun u => Float.ofModel (.pack u)) (ofScientific_zero hpos)
    obtain ⟨-, hupper⟩ := (Nat.log2_eq_iff hm.ne').1 hleading
    rw [hof, codeOf_pack _ hleading (by omega) (by omega), binade, infinityCode]
    omega

end Parametric.Decimal
