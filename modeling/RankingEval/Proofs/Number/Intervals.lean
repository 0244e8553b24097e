/-
# The reals that round to a double

Every double is read as an integer times a power of two, and no two doubles are read alike. The reals that
round to the magnitude of a double form an interval around it, and the intervals of different magnitudes
follow one another without a common point. The shortest decimal of a double is a member of its interval, so
that its value determines the magnitude.
-/

import Mathlib
import RankingEval.Number.Shortest

namespace RankingEval.Number

open Float.Model Float.Model.UnpackedFloat

/-! ## Doubles as dyadic numbers -/

/-- What holds of the dyadic numbers that are read off finite doubles. -/
structure Dyadic.Legal (d : Dyadic) : Prop where
  lt_two_pow : d.mantissa < 2 ^ 53
  full : d.exponent = -1074 ∨ -1074 < d.exponent ∧ 2 ^ 52 ≤ d.mantissa
  narrow_iff : d.narrowBelow = true ↔ -1074 < d.exponent ∧ d.mantissa = 2 ^ 52

/-- The fields of a double are the digits of its bits to mixed bases. -/
theorem ofBits_eq (bits : UInt64) :
    Binary64.ofBits bits =
      let negative := decide (bits.toNat / 2 ^ 63 = 1)
      let field : ℕ := bits.toNat / 2 ^ 52 % 2 ^ 11
      let fraction : ℕ := bits.toNat % 2 ^ 52
      if field = 2047 then if fraction = 0 then .infinite negative else .nan
      else if field = 0 then .finite ⟨negative, fraction, -1074, false⟩
      else .finite ⟨negative, 2 ^ 52 + fraction, (field : ℤ) - 1075, fraction == 0 && field > 1⟩ := by
  have hnegative : (bits >>> 63 == 1) = decide (bits.toNat / 2 ^ 63 = 1) := by
    rw [Bool.eq_iff_iff, beq_iff_eq, decide_eq_true_iff, ← UInt64.toNat_inj,
      UInt64.toNat_shiftRight, Nat.shiftRight_eq_div_pow]
    rfl
  have hfield : ((bits >>> 52) &&& 0x7FF).toNat = bits.toNat / 2 ^ 52 % 2 ^ 11 := by
    rw [UInt64.toNat_and, UInt64.toNat_shiftRight, Nat.shiftRight_eq_div_pow]
    exact Nat.and_two_pow_sub_one_eq_mod _ 11
  have hfraction : (bits &&& 0xFFFFFFFFFFFFF).toNat = bits.toNat % 2 ^ 52 := by
    rw [UInt64.toNat_and]
    exact Nat.and_two_pow_sub_one_eq_mod _ 52
  rw [Binary64.ofBits, hnegative, hfield, hfraction]
  rfl

theorem legal_of_ofBits {bits : UInt64} {d : Dyadic} (h : Binary64.ofBits bits = .finite d) : d.Legal := by
  have hfraction : bits.toNat % 2 ^ 52 < 2 ^ 52 := Nat.mod_lt _ (by decide)
  rw [ofBits_eq] at h
  dsimp only at h
  split_ifs at h with hones hnan hzero
  · cases h
    exact ⟨by simp only; omega, .inl rfl, by simp⟩
  · cases h
    refine ⟨by simp only; omega, by simp only; omega, ?_⟩
    simp only [Bool.and_eq_true, beq_iff_eq, decide_eq_true_iff]
    omega

/-- Different bits are read alike only as NaN. -/
theorem ofBits_inj {bits bits' : UInt64} (h : Binary64.ofBits bits = Binary64.ofBits bits')
    (hnan : Binary64.ofBits bits ≠ .nan) : bits = bits' := by
  have hbits : bits.toNat < 2 ^ 64 := bits.toNat_lt
  have hbits' : bits'.toNat < 2 ^ 64 := bits'.toNat_lt
  rw [ofBits_eq bits] at hnan
  rw [ofBits_eq bits, ofBits_eq bits'] at h
  dsimp only at h hnan
  apply UInt64.toNat_inj.mp
  split_ifs at h hnan with hones hzero hones' hzero' <;>
    simp only [Binary64.infinite.injEq, Binary64.finite.injEq, Dyadic.mk.injEq, reduceCtorEq,
      decide_eq_decide, ne_eq, not_true_eq_false] at h hnan <;> omega

/-- NaN is told by its exponent and its mantissa. -/
theorem ofFloat_eq_nan_iff_fields {x : Float} :
    Binary64.ofFloat x = .nan ↔ @unpackExponent .binary64 x.toModel.toBits.toBitVec = -1#11 ∧
      @unpackMantissa .binary64 x.toModel.toBits.toBitVec ≠ 0#52 := by
  have hexponent : (@unpackExponent .binary64 x.toModel.toBits.toBitVec).toNat =
      x.toBits.toNat / 2 ^ 52 % 2 ^ 11 := by
    change (x.toBits.toNat >>> 52) % 2 ^ 11 = _
    rw [Nat.shiftRight_eq_div_pow]
  have hmantissa : (@unpackMantissa .binary64 x.toModel.toBits.toBitVec).toNat =
      x.toBits.toNat % 2 ^ 52 := rfl
  rw [ne_eq, ← BitVec.toNat_inj, ← BitVec.toNat_inj, hexponent, hmantissa, Binary64.ofFloat, ofBits_eq]
  change _ ↔ x.toBits.toNat / 2 ^ 52 % 2 ^ 11 = 2047 ∧ ¬x.toBits.toNat % 2 ^ 52 = 0
  dsimp only
  split_ifs <;> simp only [true_iff, false_iff] <;> omega

/-- A double is read as NaN if it is NaN. -/
theorem ofFloat_eq_nan_iff {x : Float} : Binary64.ofFloat x = .nan ↔ x.isNaN = true := by
  rw [ofFloat_eq_nan_iff_fields]
  change _ ↔ (UnpackedFloat.unpack .binary64 x.toModel.toBits.toBitVec).isNaN = true
  rw [UnpackedFloat.unpack]
  split_ifs with hones hzero <;> simp_all [UnpackedFloat.isNaN]

/-- No two doubles are read alike. -/
theorem ofFloat_injective : Function.Injective Binary64.ofFloat := by
  intro x y h
  have hbits (x y : Float) (h : x.toBits = y.toBits) : x = y := by
    obtain ⟨⟨bits, _⟩⟩ := x
    obtain ⟨⟨bits', _⟩⟩ := y
    cases h
    rfl
  apply hbits
  by_cases hnan : Binary64.ofFloat x = .nan
  · -- only one pattern of bits for NaN is a double
    have hpacked (z : Float) (hz : Binary64.ofFloat z = .nan) :
        z.toBits.toBitVec = packedNaN .binary64 := by
      obtain ⟨hexponent, hmantissa⟩ := ofFloat_eq_nan_iff_fields.mp hz
      exact z.toModel.valid.eq_packedNaN hexponent hmantissa
    apply UInt64.toBitVec_inj.mp
    rw [hpacked x hnan, hpacked y (h ▸ hnan)]
  · exact ofBits_inj h hnan

/-! ## Decimals against doubles -/

/-- The value of a decimal. -/
def Decimal.value (c : Decimal) : ℚ := c.digits * 10 ^ c.exponent

/-- Decimals and dyadic numbers are compared by their values. -/
theorem compareScaled_eq (a : ℕ) (i : ℤ) (n : ℕ) (j : ℤ) :
    compareScaled a i n j = compare ((a : ℚ) * 10 ^ i) (n * 2 ^ j) := by
  have hsplit {b : ℚ} (hb : b ≠ 0) (k : ℤ) : b ^ k * b ^ (-k).toNat = b ^ k.toNat := by
    rw [← zpow_natCast, ← zpow_natCast, ← zpow_add₀ hb]
    congr 1
    omega
  let scale : ℚ := 10 ^ (-i).toNat * 2 ^ (-j).toNat
  have hscale : 0 < scale := by positivity
  have hleft : ((a * Nat.pow 10 i.toNat * Nat.pow 2 (-j).toNat : ℕ) : ℚ) = a * 10 ^ i * scale := by
    simp only [Nat.pow_eq]
    push_cast
    rw [← hsplit (b := 10) (by norm_num) i]
    ring
  have hright : ((n * Nat.pow 2 j.toNat * Nat.pow 10 (-i).toNat : ℕ) : ℚ) = n * 2 ^ j * scale := by
    simp only [Nat.pow_eq]
    push_cast
    rw [← hsplit (b := 2) (by norm_num) j]
    ring
  rw [compareScaled, ← cmp_eq_compare, ← cmp_eq_compare,
    ← (Nat.strictMono_cast (α := ℚ)).cmp_map_eq, hleft, hright,
    (strictMono_mul_right_of_pos hscale).cmp_map_eq]

/-- The half of the gap below the magnitude of a double, in quarters of its unit, taken off the magnitude. -/
def Dyadic.low (d : Dyadic) : ℚ :=
  (4 * d.mantissa - if d.narrowBelow then 1 else 2 : ℕ) * 2 ^ (d.exponent - 2)

/-- The half of the gap above the magnitude of a double, added to the magnitude. -/
def Dyadic.high (d : Dyadic) : ℚ := (4 * d.mantissa + 2 : ℕ) * 2 ^ (d.exponent - 2)

/-- A real rounds to the magnitude of a double: it lies within half of the gaps to the neighbours, and at the
ends of this interval if the mantissa is even. -/
structure Dyadic.Rounds (d : Dyadic) (v : ℚ) : Prop where
  low_le : d.low ≤ v
  le_high : v ≤ d.high
  even_of_low : v = d.low → d.mantissa % 2 = 0
  even_of_high : v = d.high → d.mantissa % 2 = 0

variable {d d' : Dyadic} {c : Decimal} {v w : ℚ}

theorem rounds_of_readsBack (h : d.readsBack c = true) : d.Rounds c.value := by
  have hlow : (if d.narrowBelow then 4 * d.mantissa - 1 else 4 * d.mantissa - 2) =
      4 * d.mantissa - if d.narrowBelow then 1 else 2 := by
    split_ifs <;> rfl
  rw [Dyadic.readsBack] at h
  simp only [hlow, compareScaled_eq, Bool.and_eq_true, Bool.or_eq_true, beq_iff_eq,
    compare_gt_iff_gt, compare_lt_iff_lt, compare_eq_iff_eq] at h
  change (d.low < c.value ∨ d.mantissa % 2 = 0 ∧ c.value = d.low) ∧
    (c.value < d.high ∨ d.mantissa % 2 = 0 ∧ c.value = d.high) at h
  obtain ⟨hlow, hhigh⟩ := h
  refine ⟨?_, ?_, ?_, ?_⟩
  · exact hlow.elim le_of_lt fun hend => hend.2.ge
  · exact hhigh.elim le_of_lt fun hend => hend.2.le
  · exact fun hv => hlow.elim (fun hlt => absurd hv hlt.ne') And.left
  · exact fun hv => hhigh.elim (fun hlt => absurd hv hlt.ne) And.left

theorem rounds_magnitude (h : 0 < d.mantissa) : d.Rounds (d.mantissa * 2 ^ d.exponent) := by
  have hpos : (0 : ℚ) < 2 ^ (d.exponent - 2) := by positivity
  have hquarters : (d.mantissa : ℚ) * 2 ^ d.exponent = (4 * d.mantissa : ℕ) * 2 ^ (d.exponent - 2) := by
    rw [zpow_sub₀ two_ne_zero]
    push_cast
    ring
  have hlow : d.low < d.mantissa * 2 ^ d.exponent := by
    rw [hquarters, Dyadic.low]
    refine mul_lt_mul_of_pos_right (Nat.cast_lt.mpr ?_) hpos
    split_ifs <;> omega
  have hhigh : d.mantissa * 2 ^ d.exponent < d.high := by
    rw [hquarters, Dyadic.high]
    exact mul_lt_mul_of_pos_right (Nat.cast_lt.mpr (by omega)) hpos
  exact ⟨hlow.le, hhigh.le, fun heq => absurd heq hlow.ne', fun heq => absurd heq hhigh.ne⟩

/-- What rounds to a double other than zero is not zero. -/
theorem Dyadic.Rounds.pos (h : d.Rounds v) (hd : 0 < d.mantissa) : 0 < v := by
  refine lt_of_lt_of_le (mul_pos ?_ (by positivity)) h.low_le
  rw [Nat.cast_pos]
  split_ifs <;> omega

/-- Between two doubles on one grid the intervals meet at most in an end, where one of the mantissas is odd. -/
theorem high_le_low_of_mantissa (hd : d.Legal) (hd' : d'.Legal) (hexponent : d.exponent = d'.exponent)
    (hmantissa : d.mantissa < d'.mantissa) :
    d.high ≤ d'.low ∧ (d.high = d'.low → d'.mantissa = d.mantissa + 1) := by
  have hwide : ¬d'.narrowBelow = true := by
    have := hd.full
    rw [hd'.narrow_iff]
    omega
  rw [Dyadic.high, Dyadic.low, if_neg hwide, hexponent]
  have hunit : (0 : ℚ) < 2 ^ (d'.exponent - 2) := by positivity
  constructor
  · exact mul_le_mul_of_nonneg_right (Nat.cast_le.mpr (by omega)) hunit.le
  · intro heq
    have := Nat.cast_inj.mp (mul_right_cancel₀ hunit.ne' heq)
    omega

/-- The interval of a double on a coarser grid starts where the mantissas of the finer grid end at the
earliest, and the greatest of these is odd. -/
theorem high_le_low_of_exponent (hd : d.Legal) (hd' : d'.Legal) (h : d.exponent < d'.exponent) :
    d.high ≤ d'.low ∧ (d.high = d'.low → d.mantissa = 2 ^ 53 - 1) := by
  have hlt := hd.lt_two_pow
  have hlong : 2 ^ 52 ≤ d'.mantissa := by
    rcases hd.full with hmin | hmin <;> rcases hd'.full with hmin' | hmin' <;> omega
  let unit : ℚ := 2 ^ (d.exponent - 2)
  have hunit : 0 < unit := by positivity
  have hcoarse : unit * 2 ≤ 2 ^ (d'.exponent - 2) := by
    rw [← zpow_add_one₀ two_ne_zero]
    exact zpow_le_zpow_right₀ one_le_two (by omega)
  have hlow : (2 ^ 54 - 1) * (unit * 2) ≤ d'.low := by
    have hquarters : (2 ^ 54 - 1 : ℕ) ≤ 4 * d'.mantissa - if d'.narrowBelow then 1 else 2 := by
      split_ifs with hnarrow
      · omega
      · rw [hd'.narrow_iff] at hnarrow
        have := hd.full
        omega
    have hquarters' : ((2 ^ 54 - 1 : ℕ) : ℚ) ≤
        (4 * d'.mantissa - if d'.narrowBelow then 1 else 2 : ℕ) := Nat.cast_le.mpr hquarters
    refine le_trans ?_ (mul_le_mul hquarters' hcoarse (by positivity) (Nat.cast_nonneg _))
    norm_num
  have hhigh : d.high = (4 * d.mantissa + 2) * unit := by
    rw [Dyadic.high]
    push_cast
    rfl
  have hmantissa : (d.mantissa : ℚ) ≤ 2 ^ 53 - 1 := by
    have : ((d.mantissa + 1 : ℕ) : ℚ) ≤ (2 ^ 53 : ℕ) := Nat.cast_le.mpr hlt
    push_cast at this
    linarith
  constructor
  · rw [hhigh]
    refine le_trans ?_ hlow
    nlinarith
  · intro heq
    rw [hhigh] at heq
    have hge : (2 ^ 53 - 1 : ℚ) ≤ d.mantissa := by nlinarith
    have : ((2 ^ 53 : ℕ) : ℚ) ≤ (d.mantissa + 1 : ℕ) := by
      push_cast
      linarith
    have := Nat.cast_le.mp this
    omega

/-- What rounds to the smaller one of two magnitudes is smaller. -/
theorem Dyadic.Rounds.lt (hd : d.Legal) (hd' : d'.Legal) (hv : d.Rounds v) (hw : d'.Rounds w)
    (h : d.exponent < d'.exponent ∨ d.exponent = d'.exponent ∧ d.mantissa < d'.mantissa) : v < w := by
  have hends : d.high ≤ d'.low ∧
      (d.high = d'.low → d'.mantissa = d.mantissa + 1 ∨ d.mantissa = 2 ^ 53 - 1) := by
    rcases h with hexponent | ⟨hexponent, hmantissa⟩
    · obtain ⟨hle, heq⟩ := high_le_low_of_exponent hd hd' hexponent
      exact ⟨hle, fun h => .inr (heq h)⟩
    · obtain ⟨hle, heq⟩ := high_le_low_of_mantissa hd hd' hexponent hmantissa
      exact ⟨hle, fun h => .inl (heq h)⟩
  refine lt_of_le_of_ne (hv.le_high.trans (hends.1.trans hw.low_le)) ?_
  rintro rfl
  -- the common end would need two even mantissas
  have hhigh : v = d.high := le_antisymm hv.le_high (hends.1.trans hw.low_le)
  have hlow : v = d'.low := le_antisymm (hv.le_high.trans hends.1) hw.low_le
  have heven := hv.even_of_high hhigh
  have heven' := hw.even_of_low hlow
  have hodd := hends.2 (hhigh.symm.trans hlow)
  omega

/-- A real rounds to no two different magnitudes. -/
theorem Dyadic.Rounds.unique (hd : d.Legal) (hd' : d'.Legal) (hv : d.Rounds v) (hv' : d'.Rounds v) :
    d.exponent = d'.exponent ∧ d.mantissa = d'.mantissa := by
  have hlt : ¬(d.exponent < d'.exponent ∨ d.exponent = d'.exponent ∧ d.mantissa < d'.mantissa) :=
    fun h => (hv.lt hd hd' hv' h).false
  have hgt : ¬(d'.exponent < d.exponent ∨ d'.exponent = d.exponent ∧ d'.mantissa < d.mantissa) :=
    fun h => (hv'.lt hd' hd hv h).false
  omega

/-! ## The shortest decimal -/

theorem Decimal.value_trimmed (n : ℕ) (c : Decimal) : (c.trimmed n).value = c.value := by
  induction n generalizing c with
  | zero => rfl
  | succ n ih =>
      rw [Decimal.trimmed]
      split_ifs with htrim
      · rw [Bool.and_eq_true, beq_iff_eq] at htrim
        have hdigits : c.digits = 10 * (c.digits / 10) := by omega
        have hcast : (c.digits : ℚ) = 10 * (c.digits / 10 : ℕ) := by exact_mod_cast hdigits
        rw [ih, Decimal.value, Decimal.value, hcast, zpow_add_one₀ (by norm_num)]
        ring
      · rfl

theorem Dyadic.readsBack_of_onGrid {e : ℤ} (h : d.onGrid e = some c) : d.readsBack c = true := by
  rw [Dyadic.onGrid] at h
  dsimp only at h
  cases hbelow : d.readsBack ⟨d.floorAt e, e⟩ <;> cases habove : d.readsBack ⟨d.floorAt e + 1, e⟩ <;>
    simp only [hbelow, habove] at h
  · cases h
  · cases h
    exact habove
  · cases h
    exact hbelow
  · split at h
    · cases h
      exact hbelow
    · cases h
      exact habove
    · split_ifs at h <;> cases h
      · exact hbelow
      · exact habove

theorem Dyadic.value_exactDecimal (d : Dyadic) : d.exactDecimal.value = d.mantissa * 2 ^ d.exponent := by
  rw [Dyadic.exactDecimal]
  split_ifs with hneg
  · obtain ⟨k, hk⟩ : ∃ k : ℕ, d.exponent = -(k : ℤ) := ⟨(-d.exponent).toNat, by omega⟩
    have hten : (10 : ℚ) ^ k = 5 ^ k * 2 ^ k := by rw [← mul_pow]; norm_num
    simp only [Decimal.value, hk, neg_neg, Int.toNat_natCast, zpow_neg, zpow_natCast, Nat.pow_eq, hten]
    push_cast
    field_simp
  · obtain ⟨k, hk⟩ : ∃ k : ℕ, d.exponent = k := ⟨d.exponent.toNat, by omega⟩
    simp only [Decimal.value, hk, Int.toNat_natCast, zpow_natCast, Nat.pow_eq]
    push_cast
    ring

/-- The shortest decimal of a double rounds to it. -/
theorem Dyadic.rounds_shortest (h : 0 < d.mantissa) : d.Rounds d.shortest.value := by
  rw [Dyadic.shortest, Decimal.value_trimmed]
  cases hfound : (List.range 17).findSome? fun n : ℕ => d.onGrid (d.order - 1 - n) with
  | none =>
      rw [Option.getD_none, Dyadic.value_exactDecimal]
      exact rounds_magnitude h
  | some c =>
      obtain ⟨n, -, hgrid⟩ := List.exists_of_findSome?_eq_some hfound
      exact rounds_of_readsBack (Dyadic.readsBack_of_onGrid hgrid)

/-- The decimal that is written for the magnitude of a double. -/
def Dyadic.decimal (d : Dyadic) : Decimal := if d.isZero then ⟨0, 0⟩ else d.shortest

theorem Dyadic.value_decimal_of_eq_zero (h : d.mantissa = 0) : d.decimal.value = 0 := by
  simp [Dyadic.decimal, Dyadic.isZero, h, Decimal.value]

theorem Dyadic.rounds_decimal (h : 0 < d.mantissa) : d.Rounds d.decimal.value := by
  simpa [Dyadic.decimal, Dyadic.isZero, h.ne'] using Dyadic.rounds_shortest h

/-- Sign, exponent and mantissa determine a double. -/
theorem Dyadic.Legal.eq (hd : d.Legal) (hd' : d'.Legal) (hsign : d.negative = d'.negative)
    (hsame : d.exponent = d'.exponent ∧ d.mantissa = d'.mantissa) : d = d' := by
  have hnarrow : d.narrowBelow = d'.narrowBelow := by
    rw [Bool.eq_iff_iff, hd.narrow_iff, hd'.narrow_iff, hsame.1, hsame.2]
  cases d
  cases d'
  simp only at hsign hsame hnarrow
  simp only [Dyadic.mk.injEq]
  exact ⟨hsign, hsame.2, hsame.1, hnarrow⟩

/-- The sign of a double and the value of the decimal that is written for it determine the double. -/
theorem Dyadic.eq_of_value_decimal (hd : d.Legal) (hd' : d'.Legal) (hsign : d.negative = d'.negative)
    (h : d.decimal.value = d'.decimal.value) : d = d' := by
  refine hd.eq hd' hsign ?_
  rcases d.mantissa.eq_zero_or_pos with hzero | hpos <;>
    rcases d'.mantissa.eq_zero_or_pos with hzero' | hpos'
  · have hfull := hd.full
    have hfull' := hd'.full
    omega
  · have hpositive := (Dyadic.rounds_decimal hpos').pos hpos'
    rw [← h, Dyadic.value_decimal_of_eq_zero hzero] at hpositive
    exact absurd hpositive (lt_irrefl _)
  · have hpositive := (Dyadic.rounds_decimal hpos).pos hpos
    rw [h, Dyadic.value_decimal_of_eq_zero hzero'] at hpositive
    exact absurd hpositive (lt_irrefl _)
  · exact (Dyadic.rounds_decimal hpos).unique hd hd' (h ▸ Dyadic.rounds_decimal hpos')

/-! ## The exact value -/

theorem Dyadic.toRat_eq (d : Dyadic) :
    d.toRat = (if d.negative then -1 else 1) * (d.mantissa * 2 ^ d.exponent : ℚ) := by
  have hmagnitude : (if d.exponent < 0 then mkRat d.mantissa (Nat.pow 2 (-d.exponent).toNat)
      else ((d.mantissa * Nat.pow 2 d.exponent.toNat : ℕ) : ℚ)) = d.mantissa * 2 ^ d.exponent := by
    split_ifs with hexponent
    · obtain ⟨k, hk⟩ : ∃ k : ℕ, d.exponent = -k := ⟨(-d.exponent).toNat, by omega⟩
      rw [hk, neg_neg, Int.toNat_natCast, Rat.mkRat_eq_div, Nat.pow_eq, zpow_neg, zpow_natCast, div_eq_mul_inv]
      push_cast
      rfl
    · obtain ⟨k, hk⟩ : ∃ k : ℕ, d.exponent = k := ⟨d.exponent.toNat, by omega⟩
      rw [hk, Int.toNat_natCast, Nat.pow_eq, zpow_natCast]
      push_cast
      rfl
  rw [Dyadic.toRat]
  simp only [hmagnitude]
  split_ifs
  · rw [neg_one_mul]
  · rw [one_mul]

/-- A double other than zero is determined by its value. -/
theorem Dyadic.eq_of_toRat_eq (hd : d.Legal) (hd' : d'.Legal) (hne : d.mantissa ≠ 0)
    (h : d.toRat = d'.toRat) : d = d' := by
  have hpos : (0 : ℚ) < d.mantissa * 2 ^ d.exponent := by positivity
  have hnonneg : (0 : ℚ) ≤ d'.mantissa * 2 ^ d'.exponent := by positivity
  rw [Dyadic.toRat_eq, Dyadic.toRat_eq] at h
  have hsame : d.negative = d'.negative ∧
      (d.mantissa * 2 ^ d.exponent : ℚ) = d'.mantissa * 2 ^ d'.exponent := by
    cases hsign : d.negative <;> cases hsign' : d'.negative <;>
      simp only [hsign, hsign', if_true, Bool.false_eq_true, if_false] at h
    · exact ⟨rfl, by linarith⟩
    · linarith
    · linarith
    · exact ⟨rfl, by linarith⟩
  have hpos' : 0 < d'.mantissa := by
    rw [hsame.2] at hpos
    exact Nat.cast_pos.mp (pos_of_mul_pos_left hpos (by positivity))
  refine hd.eq hd' hsame.1 ?_
  exact (rounds_magnitude (Nat.pos_of_ne_zero hne)).unique hd hd' (hsame.2 ▸ rounds_magnitude hpos')

end RankingEval.Number
