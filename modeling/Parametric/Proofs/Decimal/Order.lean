import Mathlib
import Parametric.Arithmetic

/-!
# The order of doubles

The doubles that are numbers stand in a line, with the two zeros at one place (`placeOf`), and the
comparisons compare their places (`lt_iff`, `le_iff`, `beq_iff`): so `≤` is a linear order of the
numbers up to the sign of zero, and what is no number is not comparable with anything. The lesser of
two numbers is their greatest lower bound (`le_lesser_iff`), the greater one their least upper bound
(`greater_le_iff`).
-/

namespace Parametric.Decimal

open Float.Model Float.Model.UnpackedFloat
open Arithmetic (lesser greater)

/-! ## Places -/

/-- Where a double stands in the line of the numbers: the negative ones from negative infinity
upwards, the zeros and the positive ones, with the greater exponent further out and then the greater
mantissa. -/
def place : UnpackedFloat → ℤ ×ₗ ℤ ×ₗ ℤ
  | .infinity .negative => toLex (-2, toLex (0, 0))
  | .finite .negative m e _ => toLex (-1, toLex (-e, -m))
  | .zero _ => toLex (0, toLex (0, 0))
  | .finite .positive m e _ => toLex (1, toLex (e, m))
  | .infinity .positive => toLex (2, toLex (0, 0))
  | .notANumber => toLex (0, toLex (0, 0))

theorem compare_neg (a b : ℤ) : compare (-a) (-b) = (compare a b).swap := by
  rw [Int.compare_swap, Int.compare_eq_ite_lt, Int.compare_eq_ite_lt]
  simp only [Int.neg_lt_neg_iff]

theorem compare_natCast (m n : ℕ) : compare (m : ℤ) (n : ℤ) = compare m n := by
  rw [Int.compare_eq_ite_lt, Nat.compare_eq_ite_lt]
  simp only [Int.ofNat_lt]

theorem compare_eq {x y : UnpackedFloat} (hx : x ≠ .notANumber) (hy : y ≠ .notANumber) :
    UnpackedFloat.compare x y = some (compare (place x) (place y)) := by
  cases x with
  | notANumber => exact absurd rfl hx
  | infinity s =>
    cases y with
    | notANumber => exact absurd rfl hy
    | infinity t => cases s <;> cases t <;> rfl
    | zero t => cases s <;> rfl
    | finite t m e hm => cases s <;> cases t <;> rfl
  | zero s =>
    cases y with
    | notANumber => exact absurd rfl hy
    | infinity t => cases t <;> rfl
    | zero t => rfl
    | finite t m e hm => cases t <;> rfl
  | finite s m e hm =>
    cases y with
    | notANumber => exact absurd rfl hy
    | infinity t => cases s <;> cases t <;> rfl
    | zero t => cases s <;> rfl
    | finite t m e hm =>
      cases s <;> cases t
      · simp [UnpackedFloat.compare, place, Prod.Lex.compare_def, compareLex, compareOn,
          compare_neg, compare_natCast, Ordering.swap_then]
      · rfl
      · rfl
      · simp [UnpackedFloat.compare, place, Prod.Lex.compare_def, compareLex, compareOn,
          compare_natCast]

/-! ## Comparing doubles -/

/-- Where a double stands in the line of the numbers. -/
def placeOf (x : Float) : ℤ ×ₗ ℤ ×ₗ ℤ := place x.toModel.unpack

theorem isNaN_iff_unpack {x : Float} : x.isNaN = true ↔ x.toModel.unpack = .notANumber :=
  isNaN_iff

theorem compare_unpack (a b : Float) :
    UnpackedFloat.compare a.toModel.unpack b.toModel.unpack =
      if a.isNaN ∨ b.isNaN then none else some (compare (placeOf a) (placeOf b)) := by
  split
  next h =>
    rcases h with h | h
    · rw [isNaN_iff_unpack.1 h]
      rfl
    · rw [isNaN_iff_unpack.1 h]
      cases a.toModel.unpack <;> rfl
  next h =>
    rw [not_or, isNaN_iff_unpack, isNaN_iff_unpack] at h
    exact compare_eq h.1 h.2

theorem lt_iff {a b : Float} :
    a < b ↔ a.isNaN = false ∧ b.isNaN = false ∧ placeOf a < placeOf b := by
  have hlt : a < b ↔
      (UnpackedFloat.compare a.toModel.unpack b.toModel.unpack == some .lt) = true :=
    decide_eq_true_iff
  rw [hlt, compare_unpack]
  cases a.isNaN <;> cases b.isNaN <;> simp [compare_lt_iff_lt]

theorem le_iff {a b : Float} :
    a ≤ b ↔ a.isNaN = false ∧ b.isNaN = false ∧ placeOf a ≤ placeOf b := by
  have hle : a ≤ b ↔
      (UnpackedFloat.compare a.toModel.unpack b.toModel.unpack).any (·.isLE) = true :=
    decide_eq_true_iff
  rw [hle, compare_unpack]
  cases a.isNaN <;> cases b.isNaN <;> simp [Ordering.isLE_iff_ne_gt, compare_le_iff_le]

theorem beq_iff {a b : Float} :
    a == b ↔ a.isNaN = false ∧ b.isNaN = false ∧ placeOf a = placeOf b := by
  have hbeq : a == b ↔
      (UnpackedFloat.compare a.toModel.unpack b.toModel.unpack == some .eq) = true :=
    Iff.rfl
  rw [hbeq, compare_unpack]
  cases a.isNaN <;> cases b.isNaN <;> simp [compare_eq_iff_eq]

/-! ## The numbers in order -/

theorem le_self_iff {a : Float} : a ≤ a ↔ a.isNaN = false := by
  rw [le_iff]
  exact ⟨fun h => h.1, fun h => ⟨h, h, le_refl _⟩⟩

protected theorem le_trans {a b c : Float} (hab : a ≤ b) (hbc : b ≤ c) : a ≤ c := by
  rw [le_iff] at hab hbc ⊢
  exact ⟨hab.1, hbc.2.1, hab.2.2.trans hbc.2.2⟩

theorem beq_of_le_of_le {a b : Float} (hab : a ≤ b) (hba : b ≤ a) : a == b := by
  rw [le_iff] at hab hba
  exact beq_iff.2 ⟨hab.1, hab.2.1, le_antisymm hab.2.2 hba.2.2⟩

protected theorem not_lt_of_le {a b : Float} (h : a ≤ b) : ¬b < a := by
  rw [le_iff] at h
  rw [lt_iff]
  exact fun hlt => not_lt_of_ge h.2.2 hlt.2.2

protected theorem le_of_lt {a b : Float} (h : a < b) : a ≤ b := by
  rw [lt_iff] at h
  exact le_iff.2 ⟨h.1, h.2.1, h.2.2.le⟩

/-- Only what is no number neither is at most a double nor has it below. -/
theorem incomparable_iff {a b : Float} :
    ¬b < a ∧ ¬a ≤ b ↔ a.isNaN = true ∨ b.isNaN = true := by
  rw [lt_iff, le_iff]
  cases a.isNaN <;> cases b.isNaN <;> simp

protected theorem le_of_not_lt {a b : Float} (ha : a.isNaN = false) (hb : b.isNaN = false)
    (h : ¬b < a) : a ≤ b := by
  by_contra hle
  rcases incomparable_iff.1 ⟨h, hle⟩ with hnan | hnan
  · exact Bool.noConfusion (ha.symm.trans hnan)
  · exact Bool.noConfusion (hb.symm.trans hnan)

/-! ## The lesser and the greater of two numbers -/

theorem isNaN_lesser {a b : Float} (ha : a.isNaN = false) (hb : b.isNaN = false) :
    (lesser a b).isNaN = false := by
  unfold lesser
  split_ifs <;> assumption

theorem isNaN_greater {a b : Float} (ha : a.isNaN = false) (hb : b.isNaN = false) :
    (greater a b).isNaN = false := by
  unfold greater
  split_ifs <;> assumption

/-- The lesser of two numbers is their greatest lower bound. -/
theorem le_lesser_iff {a b c : Float} (ha : a.isNaN = false) (hb : b.isNaN = false) :
    c ≤ lesser a b ↔ c ≤ a ∧ c ≤ b := by
  unfold lesser
  rw [hb, if_neg Bool.false_ne_true]
  split
  next h => exact ⟨fun hc => ⟨hc, Decimal.le_trans hc (Decimal.le_of_lt h)⟩, fun hc => hc.1⟩
  next h =>
    exact ⟨fun hc => ⟨Decimal.le_trans hc (Decimal.le_of_not_lt hb ha h), hc⟩, fun hc => hc.2⟩

/-- The greater of two numbers is their least upper bound. -/
theorem greater_le_iff {a b c : Float} (ha : a.isNaN = false) (hb : b.isNaN = false) :
    greater a b ≤ c ↔ a ≤ c ∧ b ≤ c := by
  unfold greater
  rw [hb, if_neg Bool.false_ne_true]
  split
  next h => exact ⟨fun hc => ⟨hc, Decimal.le_trans (Decimal.le_of_lt h) hc⟩, fun hc => hc.1⟩
  next h =>
    exact ⟨fun hc => ⟨Decimal.le_trans (Decimal.le_of_not_lt ha hb h) hc, hc⟩, fun hc => hc.2⟩

/-! ## Sums -/

theorem round_ne_notANumber (format : Format) (s : Sign) (m : ℕ) (e : ℤ) :
    UnpackedFloat.round format s m e ≠ .notANumber := by
  unfold UnpackedFloat.round roundWithAccuracy
  dsimp only
  split <;> simp

theorem normalize_ne_notANumber (format : Format) (m e : ℤ) (s : Sign) :
    UnpackedFloat.normalize format m e s ≠ .notANumber := by
  unfold UnpackedFloat.normalize
  split
  · exact round_ne_notANumber _ _ _ _
  · simp
  · exact round_ne_notANumber _ _ _ _

/-- Finite doubles have a sum that is a number, if not a finite one. -/
theorem add_ne_notANumber {x y : UnpackedFloat} (hx : x.isFinite = true) (hy : y.isFinite = true) :
    UnpackedFloat.add .binary64 x y ≠ .notANumber := by
  cases x with
  | notANumber => exact Bool.noConfusion hx
  | infinity s => exact Bool.noConfusion hx
  | zero s =>
    cases y with
    | notANumber => exact Bool.noConfusion hy
    | infinity t => exact Bool.noConfusion hy
    | zero t => cases s <;> cases t <;> simp [UnpackedFloat.add]
    | finite t n f hn => simp [UnpackedFloat.add]
  | finite s m e hm =>
    cases y with
    | notANumber => exact Bool.noConfusion hy
    | infinity t => exact Bool.noConfusion hy
    | zero t => simp [UnpackedFloat.add]
    | finite t n f hn => exact normalize_ne_notANumber _ _ _ _

/-- A packed double is no number only if the unpacked one is none. -/
theorem pack_ne_packedNaN {x : UnpackedFloat} (hx : x ≠ .notANumber) :
    UnpackedFloat.pack .binary64 x ≠ packedNaN .binary64 := by
  have hinfinity (s : Sign) : packedInfinity .binary64 s ≠ packedNaN .binary64 := fun h => by
    have hmantissa := congrArg unpackMantissa h
    simp only [packedInfinity, packedNaN, unpackMantissa_packComponents] at hmantissa
    exact absurd hmantissa (by decide)
  have hexponent (s : Sign) (exponent mantissa) (hne : exponent ≠ -1#_) :
      packComponents .binary64 s exponent mantissa ≠ packedNaN .binary64 := fun h => by
    have hexponent := congrArg unpackExponent h
    simp only [packedNaN, unpackExponent_packComponents] at hexponent
    exact hne hexponent
  cases x with
  | notANumber => exact absurd rfl hx
  | infinity s => exact hinfinity s
  | zero s => exact hexponent _ _ _ (by decide)
  | finite s m e hm =>
    unfold UnpackedFloat.pack
    dsimp only
    split_ifs with hlarge
    · exact hinfinity s
    · refine hexponent _ _ _ fun hones => hlarge ?_
      have hnat := congrArg BitVec.toNat hones
      rw [BitVec.toNat_ofNat] at hnat
      change _ % 2 ^ 11 = 2047 at hnat
      change 2 ^ 11 ≤ _
      omega
    · exact hexponent _ _ _ (by decide)

theorem isNaN_add {a b : Float} (ha : a.isFinite = true) (hb : b.isFinite = true) :
    (a + b).isNaN = false := by
  rw [Float.isNaN_eq_decide_eq_nan, decide_eq_false_iff_not, ← Float.toBits_inj,
    ← UInt64.toBitVec_inj]
  exact pack_ne_packedNaN (add_ne_notANumber ha hb)

theorem isNaN_of_isFinite {a : Float} (ha : a.isFinite = true) : a.isNaN = false := by
  change a.toModel.unpack.isFinite = true at ha
  change a.toModel.unpack.isNaN = false
  cases h : a.toModel.unpack with
  | notANumber =>
    rw [h] at ha
    exact Bool.noConfusion ha
  | infinity s => rfl
  | zero s => rfl
  | finite s m e hm => rfl

end Parametric.Decimal
