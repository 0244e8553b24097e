/-
# Whole numbers as doubles

The double of a whole number is the product of its digits with a power of ten that is one. The digits of a short
number are stored before they are multiplied, those of a longer one are multiplied as they are; in both cases the
product is rounded on a grid that is far from the greatest one. So every whole number of 64 bits has a double, and
this double is a number.
-/

import Mathlib
import RankingEval.Number.Binary64
import RankingEval.Proofs.Number.Rounding

namespace RankingEval.Number

open Float.Model Float.Model.UnpackedFloat

/-- The number is rounded, on a grid whose exponent is limited. -/
def RoundedBelow (k : ℤ) (u : UnpackedFloat) : Prop :=
  ∃ v m e, GridExponent v e ∧ NearestEven (v / 2 ^ e) m ∧ e ≤ k ∧ u = onGrid m e

variable {k : ℤ} {u : UnpackedFloat} {m : ℕ}

/-- What is rounded far from the greatest grid is read back as it is stored. -/
theorem RoundedBelow.unpack_pack (h : RoundedBelow k u) (hk : k ≤ 970) : (Float.Model.pack u).unpack = u := by
  obtain ⟨v, m, e, hgrid, hnearest, he, rfl⟩ := h
  exact unpack_pack_onGrid hgrid hnearest (he.trans hk)

/-- It is finite. -/
theorem RoundedBelow.isFinite (h : RoundedBelow k u) : u.isFinite = true := by
  obtain ⟨v, m, e, -, -, -, rfl⟩ := h
  rw [onGrid]
  split_ifs <;> rfl

theorem roundedBelow_zero (hk : -1074 ≤ k) : RoundedBelow k (.zero .positive) := by
  refine ⟨0, 0, -1074, ⟨le_rfl, zpow_pos two_pos _, .inl rfl⟩, ?_, hk, rfl⟩
  rw [zero_div]
  exact_mod_cast nearestEven_natCast 0

/-- A mantissa of full length is rounded on a grid that its value limits. -/
theorem roundedBelow_round {e : ℤ} (hfull : 52 ≤ m.log2) (hk : -1074 ≤ k)
    (hvalue : (m : ℚ) * 2 ^ e < 2 ^ (k + 53)) :
    RoundedBelow k (roundWithAccuracy .binary64 .positive m e .exact) := by
  have hkeeps : Keeps (ExtendedMantissa.ofMantissaAndAccuracy m .exact) (m : ℚ) := by
    simpa [accuracyOfFraction, Nat.mod_one] using keeps_fraction m one_pos
  obtain ⟨n, f, hgrid, hnearest, hround⟩ := exists_onGrid_of_round hkeeps (.inl hfull)
  refine ⟨_, n, f, hgrid, hnearest, ?_, hround⟩
  rcases hgrid.zpow_le with rfl | hlow
  · exact hk
  · have hpow := (zpow_lt_zpow_iff_right₀ one_lt_two).mp (hlow.trans_lt hvalue)
    omega

/-- A product with one is rounded once more, on a grid that is hardly coarser. -/
theorem RoundedBelow.mul_one (h : RoundedBelow k u) (hk : -1074 ≤ k) :
    RoundedBelow (k + 1) (u.mul .binary64 (.finite .positive (2 ^ 52) (-52) (by decide))) := by
  obtain ⟨v, m, e, -, -, he, rfl⟩ := h
  -- the product is exact before it is rounded
  have hproduct {n : ℕ} {f : ℤ} (hn : n ≠ 0) (hlt : n < 2 ^ 53) (hf : f ≤ k + 1) :
      RoundedBelow (k + 1) (roundWithAccuracy .binary64 .positive (n * 2 ^ 52) (f + -52) .exact) := by
    have hfull : 52 ≤ (n * 2 ^ 52).log2 :=
      (Nat.le_log2 (by positivity)).mpr (Nat.le_mul_of_pos_left _ (Nat.pos_of_ne_zero hn))
    apply roundedBelow_round hfull (by omega)
    calc ((n * 2 ^ 52 : ℕ) : ℚ) * 2 ^ (f + -52) = n * 2 ^ f := by
          rw [zpow_add₀ two_ne_zero]
          push_cast
          norm_num
          ring
      _ < 2 ^ 53 * 2 ^ (k + 1) := by
          have hcast : (n : ℚ) < 2 ^ 53 := by exact_mod_cast hlt
          exact mul_lt_mul hcast (zpow_le_zpow_right₀ one_le_two hf) (zpow_pos two_pos f) (by positivity)
      _ = 2 ^ (k + 1 + 53) := by
          rw [zpow_add₀ two_ne_zero (k + 1), mul_comm]
          norm_num
  rw [onGrid]
  split_ifs with hzero hshort
  · exact roundedBelow_zero (by omega)
  · exact hproduct hzero hshort (by omega)
  · exact hproduct (by decide) (by decide) (by omega)

/-- What is finite is neither infinite nor undefined. -/
theorem ordinary_of_isFinite (h : u.isFinite = true) : u.isInf = false ∧ u.isNaN = false := by
  cases u with
  | notANumber => cases h
  | infinity s => cases h
  | zero s => exact ⟨rfl, rfl⟩
  | finite s m e pos => exact ⟨rfl, rfl⟩

/-! ## Digits -/

/-- Digits that are few enough are stored with trailing zeros. -/
theorem roundedBelow_ofNat (hm : m < 2 ^ 53) : RoundedBelow 0 (UnpackedFloat.ofNat .binary64 m) := by
  rcases m.eq_zero_or_pos with rfl | hpos
  · exact roundedBelow_zero (by decide)
  obtain ⟨k, hk⟩ : ∃ k, m.log2 + k = 52 := by
    have hlog := (Nat.log2_lt hpos.ne').mpr hm
    exact ⟨52 - m.log2, by omega⟩
  have hshifted : UnpackedFloat.ofNat .binary64 m =
      roundWithAccuracy .binary64 .positive (m <<< k) (0 - (k : ℤ)) .exact := by
    have hcompare : compare (m : ℤ) 0 = .gt := compare_gt_iff_gt.mpr (by exact_mod_cast hpos)
    have htarget : Format.binary64.targetExponent (totalExponent m 0) = -(k : ℤ) := by
      simp only [Format.targetExponent, totalExponent, Format.mantissaBits, Format.minExponent]
      norm_num
      omega
    have hshift : (0 - -(k : ℤ)).toNat = k := by omega
    rw [UnpackedFloat.ofNat, UnpackedFloat.ofInt, UnpackedFloat.normalize, hcompare]
    dsimp only
    rw [Int.toNat_natCast, UnpackedFloat.round, htarget, decreaseExponent, hshift]
  have hfull : 52 ≤ (m <<< k).log2 := by
    rw [Nat.shiftLeft_eq, Nat.le_log2 (Nat.mul_pos hpos (by positivity)).ne']
    calc 2 ^ 52 = 2 ^ m.log2 * 2 ^ k := by rw [← pow_add, hk]
      _ ≤ m * 2 ^ k := Nat.mul_le_mul_right _ (Nat.log2_self_le hpos.ne')
  rw [hshifted]
  apply roundedBelow_round hfull (by decide)
  have hcast : (m : ℚ) < 2 ^ 53 := by exact_mod_cast hm
  calc ((m <<< k : ℕ) : ℚ) * 2 ^ (0 - (k : ℤ)) = m := by
        rw [Nat.shiftLeft_eq, zero_sub, zpow_neg, zpow_natCast]
        push_cast
        field_simp
    _ < 2 ^ (0 + 53 : ℤ) := hcast

/-- More digits are rounded when they are multiplied with one. -/
theorem roundedBelow_ofScientific (hpos : 0 < m) (hm : m < 2 ^ 65) :
    RoundedBelow 12 (UnpackedFloat.ofScientific .binary64 m 0) := by
  have hproduct : UnpackedFloat.ofScientific .binary64 m 0 =
      roundWithAccuracy .binary64 .positive (m <<< 53 * 10 ^ 0) (-53 + 0) .exact := by
    have hlow : ¬(0 : ℤ) < -((2 ^ Format.binary64.exponentBits : ℤ) + m.log2) := by
      change ¬(0 : ℤ) < -(2 ^ 11 + m.log2)
      omega
    rw [UnpackedFloat.ofScientific, dif_neg hpos.ne', if_neg (by decide), if_neg hlow, if_pos le_rfl]
    rfl
  have hfull : 52 ≤ (m <<< 53 * 10 ^ 0).log2 := by
    rw [Nat.shiftLeft_eq, pow_zero, Nat.mul_one, Nat.le_log2 (by positivity)]
    omega
  rw [hproduct]
  apply roundedBelow_round hfull (by decide)
  have hcast : (m : ℚ) < 2 ^ 65 := by exact_mod_cast hm
  calc ((m <<< 53 * 10 ^ 0 : ℕ) : ℚ) * 2 ^ (-53 + 0 : ℤ) = m := by
        rw [Nat.shiftLeft_eq]
        push_cast
        norm_num
        ring
    _ < 2 ^ (12 + 53 : ℤ) := hcast

/-- The digits of a whole number of 64 bits have a double that is finite. -/
theorem isFinite_ofScientific (hm : m < 2 ^ 65) :
    (Float.ofScientific m false 0).toModel.unpack.isFinite = true := by
  rw [Float.ofScientific]
  split_ifs with hshort
  · contradiction
  · have hdigits : m.toUInt64.toFloat.toModel.unpack = UnpackedFloat.ofNat .binary64 m := by
      have hsame : m.toUInt64.toNat = m := by
        rw [UInt64.toNat_ofNat']
        omega
      have hread : m.toUInt64.toFloat.toModel.unpack =
        (Float.Model.pack (UnpackedFloat.ofNat .binary64 m.toUInt64.toNat)).unpack := rfl
      rw [hread, hsame, (roundedBelow_ofNat hshort.1).unpack_pack (by decide)]
    have hone : Float.exactlyRepresentablePowersOfTen[0].toModel.unpack =
        .finite .positive (2 ^ 52) (-52) (by decide) := rfl
    have hproduct := (roundedBelow_ofNat hshort.1).mul_one (by decide)
    have hmul (x y : Float) : (x * y).toModel = .pack (x.toModel.unpack.mul .binary64 y.toModel.unpack) := rfl
    dsimp only
    rw [hmul, hdigits, hone, hproduct.unpack_pack (by decide)]
    exact hproduct.isFinite
  · contradiction
  · have hlong : 2 ^ 53 ≤ m := by omega
    have hproduct := roundedBelow_ofScientific (by omega) hm
    change (Float.Model.pack (UnpackedFloat.ofScientific .binary64 m 0)).unpack.isFinite = true
    rw [hproduct.unpack_pack (by decide)]
    exact hproduct.isFinite

/-- A whole number of 64 bits has a double, and this is a number. -/
theorem exists_ofInt? {n : ℤ} (hn : n.natAbs < 2 ^ 65) : ∃ x, ofInt? n = some x ∧ x.isNaN = false := by
  have hfinite := isFinite_ofScientific hn
  generalize hmagnitude : Float.ofScientific n.natAbs false 0 = magnitude at hfinite
  obtain ⟨hinf, hnan⟩ : magnitude.isInf = false ∧ magnitude.isNaN = false := ordinary_of_isFinite hfinite
  -- the limit is kept under a name, as it is too large to be computed
  obtain ⟨k, hk⟩ : ∃ k, k = 1024 := ⟨_, rfl⟩
  have hrange : ¬n.natAbs ≥ Nat.pow 2 k :=
    Nat.not_le.mpr (hn.trans_le (Nat.pow_le_pow_right two_pos (by omega)))
  rw [ofInt?, ← hk, if_neg hrange, hmagnitude]
  dsimp only
  rw [hinf, if_neg Bool.false_ne_true]
  refine ⟨_, rfl, ?_⟩
  split_ifs
  · rw [float_isNaN_neg, hnan]
  · exact hnan

end RankingEval.Number
