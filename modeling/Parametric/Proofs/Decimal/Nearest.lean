import Mathlib.Algebra.Order.Ring.Nat
import Mathlib.Tactic.Ring
import Parametric.Decimal.Shortest

/-!
# Nearest codes

`nearestCode` depends on the ratio only (`nearestCode_congr`), gives a code back from its own units
(`nearestCode_units`), and is 0 or infinity far outside the range of doubles. So the code of a
decimal is that of its value, however it is written (`Scaled.code_congr`), and the shortest decimal
of a double reads back to it (`code_shortest`).
-/

namespace Parametric.Decimal

/-! ## Quotients -/

theorem divNearest_mul (a d : Nat) {k : Nat} (hk : 0 < k) :
    divNearest (a * k) (d * k) = divNearest a d := by
  have hlt : ∀ x y : Nat, x * k < y * k ↔ x < y := fun x y => Nat.mul_lt_mul_right hk
  simp only [divNearest, Nat.mul_mod_mul_right, Nat.mul_div_mul_right _ _ hk, ← Nat.mul_assoc, hlt]

theorem divNearest_exact (m : Nat) {d : Nat} (hd : 0 < d) : divNearest (m * d) d = m := by
  simp [divNearest, Nat.mul_div_cancel _ hd, hd]

theorem nearestCode_le (num den : Nat) : nearestCode num den ≤ infinityCode := Nat.min_le_left _ _

theorem nearestCode_mul (num den : Nat) {k : Nat} (hk : 0 < k) :
    nearestCode (num * k) (den * k) = nearestCode num den := by
  have hnum : (num * k) <<< unitShift = num <<< unitShift * k := by
    rw [Nat.shiftLeft_eq, Nat.shiftLeft_eq, Nat.mul_right_comm]
  have hden : ∀ n, (den * k) <<< n = den <<< n * k := by
    intro n
    rw [Nat.shiftLeft_eq, Nat.shiftLeft_eq, Nat.mul_right_comm]
  simp only [nearestCode, hnum, hden, Nat.mul_div_mul_right _ _ hk, divNearest_mul _ _ hk]

/-- Equal ratios have the same nearest code. -/
theorem nearestCode_congr {num den num' den' : Nat} (hden : 0 < den) (hden' : 0 < den')
    (h : num * den' = num' * den) : nearestCode num den = nearestCode num' den' := by
  rw [← nearestCode_mul num den hden', h, Nat.mul_comm den, nearestCode_mul num' den' hden]

/-! ## Codes and their units -/

/-- A code is the exponent of its spacing and a mantissa, which has its leading bit if there is a
smaller spacing. -/
theorem exists_mantissa (code : Nat) : ∃ m, code = spacing code * binade + m ∧
    units code = m * 2 ^ spacing code ∧ m < 2 ^ 53 ∧ (spacing code = 0 ∨ 2 ^ 52 ≤ m) := by
  have hbinade : binade = 2 ^ 52 := rfl
  refine ⟨code - spacing code * binade, ?_, Nat.shiftLeft_eq _ _, ?_⟩
  · unfold spacing
    rw [hbinade]
    omega
  · unfold spacing
    rw [hbinade]
    omega

theorem log2_mul_two_pow {m : Nat} (hm : m ≠ 0) (k : Nat) : (m * 2 ^ k).log2 = m.log2 + k := by
  have hpos := Nat.two_pow_pos k
  obtain ⟨hlower, hupper⟩ := (Nat.log2_eq_iff hm).1 rfl
  rw [Nat.log2_eq_iff (Nat.mul_ne_zero hm (Nat.ne_of_gt hpos)), Nat.add_right_comm, Nat.pow_add,
    Nat.pow_add]
  exact ⟨Nat.mul_le_mul_right _ hlower, Nat.mul_lt_mul_of_pos_right hupper hpos⟩

/-- The bits of the units above the first 53 are those of the spacing. -/
theorem log2_units (code : Nat) : (units code).log2 - 52 = spacing code := by
  obtain ⟨m, -, hunits, hlt, hleading⟩ := exists_mantissa code
  rw [hunits]
  by_cases hm : m = 0
  · have hspacing : spacing code = 0 := by omega
    simp [hm, hspacing]
  have hbits : m.log2 < 53 := (Nat.log2_lt hm).2 hlt
  rw [log2_mul_two_pow hm]
  rcases hleading with hspacing | hle
  · omega
  · have := (Nat.le_log2 hm).2 hle
    omega

/-- A code is nearest to its own units. -/
theorem nearestCode_units {code : Nat} (h : code < infinityCode) :
    nearestCode (units code) (2 ^ unitShift) = code := by
  obtain ⟨m, hcode, hunits, -⟩ := exists_mantissa code
  have hpos : 0 < 2 ^ unitShift := Nat.two_pow_pos _
  have hquotient : units code <<< unitShift / 2 ^ unitShift = units code := by
    rw [Nat.shiftLeft_eq, Nat.mul_div_cancel _ hpos]
  have hnearest : divNearest (units code <<< unitShift) (2 ^ unitShift <<< spacing code) = m := by
    rw [hunits, Nat.shiftLeft_eq, Nat.shiftLeft_eq, Nat.mul_assoc, Nat.mul_comm (2 ^ spacing code),
      divNearest_exact _ (Nat.mul_pos hpos (Nat.two_pow_pos _))]
  simp only [nearestCode, hquotient, log2_units, hnearest, ← hcode]
  exact Nat.min_eq_right (Nat.le_of_lt h)

/-- A ratio of less than half a unit is nearest to zero. -/
theorem nearestCode_eq_zero {num den : Nat} (h : num * 2 ^ (unitShift + 1) < den) :
    nearestCode num den = 0 := by
  have hdouble : ∀ u, 2 * (num <<< u) = num * 2 ^ (u + 1) := by
    intro u
    rw [Nat.shiftLeft_eq, Nat.mul_left_comm, ← Nat.pow_succ']
  have hsmall : 2 * (num <<< unitShift) < den := (hdouble unitShift).trans_lt h
  have hdiv : num <<< unitShift / den = 0 := Nat.div_eq_of_lt (by omega)
  have hmod : num <<< unitShift % den = num <<< unitShift := Nat.mod_eq_of_lt (by omega)
  simp [nearestCode, hdiv, divNearest, hmod, hsmall]

/-- A ratio of at least `2 ^ 1025` is nearest to infinity. -/
theorem nearestCode_eq_infinity {num den n : Nat} (hden : 0 < den) (hn : 1025 ≤ n)
    (h : 2 ^ n * den ≤ num) : nearestCode num den = infinityCode := by
  have hquotient : 2 ^ (n + unitShift) ≤ num <<< unitShift / den := by
    rw [Nat.le_div_iff_mul_le hden, Nat.shiftLeft_eq, Nat.pow_add, Nat.mul_right_comm]
    exact Nat.mul_le_mul_right _ h
  have hlog : n + unitShift ≤ (num <<< unitShift / den).log2 :=
    (Nat.le_log2 (Nat.ne_of_gt (Nat.lt_of_lt_of_le (Nat.two_pow_pos _) hquotient))).2 hquotient
  have hk : 2047 ≤ (num <<< unitShift / den).log2 - 52 := by
    have : unitShift = 1074 := rfl
    omega
  have hle : infinityCode ≤ ((num <<< unitShift / den).log2 - 52) * binade :=
    Nat.mul_le_mul_right binade hk
  exact Nat.min_eq_left (Nat.le_trans hle (Nat.le_add_right _ _))

/-! ## Decimals -/

namespace Scaled

theorem tenTo_eq (n : Nat) : tenTo n = 10 ^ n := rfl

theorem two_pow_le_tenTo (n : Nat) : 2 ^ (3 * n) ≤ tenTo n := by
  rw [tenTo_eq, Nat.pow_mul]
  exact Nat.pow_le_pow_left (by decide) n

/-- The shortcuts for exponents far outside the range of doubles give the nearest code as well. -/
theorem code_eq (d : Scaled) :
    d.code = nearestCode (d.digits * tenTo d.exponent.toNat) (tenTo (-d.exponent).toNat) := by
  have hpos : ∀ n, 0 < tenTo n := fun n => Nat.pow_pos (by decide)
  unfold code
  split
  next hzero =>
    rw [hzero, Nat.zero_mul]
    exact (nearestCode_eq_zero (by simpa using hpos _)).symm
  next hzero =>
    split
    next hlarge =>
      have hneg : (-d.exponent).toNat = 0 := by omega
      rw [hneg]
      refine (nearestCode_eq_infinity (n := 3 * d.exponent.toNat) (hpos _) (by omega) ?_).symm
      calc 2 ^ (3 * d.exponent.toNat) * tenTo 0
        _ = 2 ^ (3 * d.exponent.toNat) := by rw [tenTo_eq, Nat.pow_zero, Nat.mul_one]
        _ ≤ tenTo d.exponent.toNat := two_pow_le_tenTo _
        _ ≤ d.digits * tenTo d.exponent.toNat := Nat.le_mul_of_pos_left _ (by omega)
    next hlarge =>
      split
      next hsmall =>
        have hnonneg : d.exponent.toNat = 0 := by omega
        rw [hnonneg]
        refine (nearestCode_eq_zero ?_).symm
        have hunit : unitShift = 1074 := rfl
        calc d.digits * tenTo 0 * 2 ^ (unitShift + 1)
          _ < 2 ^ (d.digits.log2 + 1) * 2 ^ (unitShift + 1) := by
              rw [tenTo_eq, Nat.pow_zero, Nat.mul_one]
              exact Nat.mul_lt_mul_of_pos_right Nat.lt_log2_self (Nat.two_pow_pos _)
          _ = 2 ^ (d.digits.log2 + 1 + (unitShift + 1)) := (Nat.pow_add _ _ _).symm
          _ ≤ 2 ^ (3 * (-d.exponent).toNat) := Nat.pow_le_pow_right (by decide) (by omega)
          _ ≤ tenTo (-d.exponent).toNat := two_pow_le_tenTo _
      next => rfl

theorem code_le (d : Scaled) : d.code ≤ infinityCode := by
  rw [code_eq]
  exact nearestCode_le _ _

/-- Decimals of the same value have the same code. -/
theorem code_congr {d d' : Scaled}
    (h : d.digits * tenTo d.exponent.toNat * tenTo (-d'.exponent).toNat =
      d'.digits * tenTo d'.exponent.toNat * tenTo (-d.exponent).toNat) : d.code = d'.code := by
  rw [code_eq, code_eq]
  exact nearestCode_congr (Nat.pow_pos (by decide)) (Nat.pow_pos (by decide)) h

/-- Dropping a zero at the end of the digits changes nothing. -/
theorem code_shift (a : Nat) (e : Int) : code ⟨10 * a, e⟩ = code ⟨a, e + 1⟩ := by
  refine code_congr ?_
  simp only [tenTo_eq]
  rcases Int.lt_or_le e 0 with he | he
  · obtain ⟨n, rfl⟩ : ∃ n : Nat, e = -(n + 1 : Nat) := ⟨(-e - 1).toNat, by omega⟩
    have h₁ : (-((n + 1 : Nat) : Int)).toNat = 0 := by omega
    have h₂ : (-((n + 1 : Nat) : Int) + 1).toNat = 0 := by omega
    have h₃ : (-(-((n + 1 : Nat) : Int))).toNat = n + 1 := by omega
    have h₄ : (-(-((n + 1 : Nat) : Int) + 1)).toNat = n := by omega
    rw [h₁, h₂, h₃, h₄]
    ring
  · obtain ⟨n, rfl⟩ := Int.eq_ofNat_of_zero_le he
    have h₁ : (n : Int).toNat = n := by omega
    have h₂ : ((n : Int) + 1).toNat = n + 1 := by omega
    have h₃ : (-(n : Int)).toNat = 0 := by omega
    have h₄ : (-((n : Int) + 1)).toNat = 0 := by omega
    rw [h₁, h₂, h₃, h₄]
    ring

theorem code_trim (d : Scaled) : d.trim.code = d.code := by
  have hgo : ∀ (fuel : Nat) (d : Scaled), (trim.go fuel d).code = d.code := by
    intro fuel
    induction fuel with
    | zero => exact fun d => rfl
    | succ fuel ih =>
      intro d
      rw [trim.go]
      split
      next h =>
        have hdigits : 10 * (d.digits / 10) = d.digits := by omega
        rw [ih, ← code_shift, hdigits]
      next => rfl
  exact hgo _ d

end Scaled

/-! ## The shortest decimal -/

theorem code_of_onGrid? {target num den : Nat} {e : Int} {d : Scaled}
    (h : onGrid? target num den e = some d) : d.code = target := by
  unfold onGrid? at h
  dsimp only at h
  split at h
  next hlower =>
    split at h
    next hupper =>
      cases h
      exact hupper.1
    next =>
      cases h
      exact hlower
  next =>
    split at h
    next hupper =>
      cases h
      exact hupper
    next => cases h

/-- Units of `2 ^ (-u)` are decimals with `u` places. -/
theorem nearestCode_five_pow (num u : Nat) :
    nearestCode (num * Nat.pow 5 u) (tenTo u) = nearestCode num (2 ^ u) := by
  have hten : tenTo u = 5 ^ u * 2 ^ u := Nat.mul_pow 5 2 u
  refine nearestCode_congr (Nat.pow_pos (by decide)) (Nat.two_pow_pos u) ?_
  rw [hten, ← Nat.mul_assoc]
  rfl

/-- The shortest decimal of a double reads back to it. -/
theorem code_shortest {code : Nat} (h : code < infinityCode) : (shortest code).code = code := by
  unfold shortest
  dsimp only
  split
  next hzero =>
    have hcode := nearestCode_units h
    rw [hzero, nearestCode_eq_zero (by simp)] at hcode
    exact hcode
  next =>
    split
    next d hd =>
      obtain ⟨i, -, hgrid⟩ := List.exists_of_findSome?_eq_some hd
      rw [Scaled.code_trim, code_of_onGrid? hgrid]
    next =>
      have hneg : (-(unitShift : Int)).toNat = 0 := by omega
      have hpos : (-(-(unitShift : Int))).toNat = unitShift := by omega
      rw [Scaled.code_trim, Scaled.code_eq, hneg, hpos, Scaled.tenTo_eq, Nat.pow_zero, Nat.mul_one,
        nearestCode_five_pow]
      exact nearestCode_units h

end Parametric.Decimal
