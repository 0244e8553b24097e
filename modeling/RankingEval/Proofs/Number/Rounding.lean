/-
# Quotients of counts, rounded once

Division of doubles takes a quotient with enough binary places, keeps in two bits what was cut off, and
rounds to the nearest mantissa. This module reads that process as exact rational arithmetic: the
quotient of two counts is the nearest point of a binary grid that depends on the exact quotient alone,
and of two nearest points the even one. So the rounded quotient is monotone in the exact one, and it is
zero and one where the exact one is.
-/

import Mathlib
import RankingEval.Proofs.Number.Packing

namespace RankingEval.Number

open Float.Model Float.Model.UnpackedFloat

/-! ## Rounding to the nearest whole number -/

/-- A whole number is nearest to `x`, and even if another one is as near. -/
structure NearestEven (x : ℚ) (m : ℕ) : Prop where
  /-- It is not too small. -/
  le_add : x ≤ m + 1 / 2
  /-- It is not too large. -/
  sub_le : m - 1 / 2 ≤ x
  /-- It is even if the next one below is as near. -/
  even_of_sub : x = m - 1 / 2 → m % 2 = 0
  /-- It is even if the next one above is as near. -/
  even_of_add : x = m + 1 / 2 → m % 2 = 0

/-- Rounding to the nearest whole number is monotone. -/
theorem NearestEven.mono {x y : ℚ} {m n : ℕ} (hx : NearestEven x m) (hy : NearestEven y n)
    (hxy : x ≤ y) : m ≤ n := by
  by_contra hnm
  have hsucc : n + 1 ≤ m := Nat.lt_of_not_le hnm
  have hcast : (n : ℚ) + 1 ≤ m := by exact_mod_cast hsucc
  have hlow := hx.sub_le
  have hhigh := hy.le_add
  -- both numbers lie half way between `n` and `n + 1`, and both neighbours would have to be even
  have hm : m = n + 1 := by
    have : (m : ℚ) ≤ n + 1 := by linarith
    exact le_antisymm (by exact_mod_cast this) hsucc
  have hmcast : (m : ℚ) = n + 1 := by exact_mod_cast hm
  have heven := hx.even_of_sub (by linarith)
  have heven' := hy.even_of_add (by linarith)
  omega

/-- A whole number is its own nearest one. -/
theorem nearestEven_natCast (m : ℕ) : NearestEven (m : ℚ) m where
  le_add := by linarith
  sub_le := by linarith
  even_of_sub h := by linarith
  even_of_add h := by linarith

/-- An extended mantissa knows of `x` its whole part, whether it reaches the next half, and whether it
is a multiple of one half. -/
structure Keeps (em : ExtendedMantissa) (x : ℚ) : Prop where
  /-- The mantissa is at most `x`. -/
  mantissa_le : (em.mantissa : ℚ) ≤ x
  /-- The next mantissa is beyond `x`. -/
  lt_succ : x < em.mantissa + 1
  /-- The round bit tells whether `x` reaches the next half. -/
  roundBit_iff : em.roundBit = true ↔ em.mantissa + 1 / 2 ≤ x
  /-- The sticky bit tells whether `x` lies between the halves. -/
  stickyBit_iff : em.stickyBit = false ↔ x = em.mantissa ∨ x = em.mantissa + 1 / 2

/-- What is known of a number is known of its half after a shift by one bit. -/
theorem Keeps.shiftRightOne {em : ExtendedMantissa} {x : ℚ} (h : Keeps em x) :
    Keeps em.shiftRightOne (x / 2) := by
  obtain ⟨m, r, s⟩ := em
  obtain ⟨hle, hlt, hround, hsticky⟩ := h
  simp only at hle hlt hround hsticky
  have hsplit : (m : ℚ) = 2 * (m / 2 : ℕ) + (m % 2 : ℕ) := by exact_mod_cast (Nat.div_add_mod m 2).symm
  generalize hq : m / 2 = q at hsplit
  rcases Nat.mod_two_eq_zero_or_one m with hbit | hbit <;> rw [hbit] at hsplit <;>
    push_cast at hsplit
  · refine ⟨?_, ?_, ?_, ?_⟩ <;>
      simp only [ExtendedMantissa.shiftRightOne, hq, hbit, bne_self_eq_false, Bool.false_eq_true,
        false_iff, Bool.or_eq_false_iff, hsticky]
    · linarith
    · linarith
    · linarith
    · rw [← Bool.not_eq_true, hround]
      constructor
      · rintro ⟨hno, hx | hx⟩
        · exact Or.inl (by linarith)
        · exact absurd hx.ge hno
      · rintro (hx | hx)
        · exact ⟨by linarith, Or.inl (by linarith)⟩
        · linarith
  · refine ⟨?_, ?_, ?_, ?_⟩ <;>
      simp only [ExtendedMantissa.shiftRightOne, hq, hbit, Bool.or_eq_false_iff, hsticky]
    · linarith
    · linarith
    · exact iff_of_true rfl (by linarith)
    · rw [← Bool.not_eq_true, hround]
      constructor
      · rintro ⟨hno, hx | hx⟩
        · exact Or.inr (by linarith)
        · exact absurd hx.ge hno
      · rintro (hx | hx)
        · linarith
        · exact ⟨by linarith, Or.inl (by linarith)⟩

/-- What is known of a number is known of its part by a power of two after a shift by as many bits. -/
theorem Keeps.shiftRight {em : ExtendedMantissa} {x : ℚ} (h : Keeps em x) (k : ℕ) :
    Keeps (em >>> k) (x / 2 ^ k) := by
  induction k with
  | zero =>
      rw [pow_zero, div_one]
      exact h
  | succ k ih =>
      rw [pow_succ, ← div_div]
      exact ih.shiftRightOne

/-- The bits of an extended mantissa suffice to round what it keeps to the nearest whole number. -/
theorem Keeps.nearestEven {em : ExtendedMantissa} {x : ℚ} (h : Keeps em x) :
    NearestEven x em.roundedMantissa := by
  obtain ⟨m, r, s⟩ := em
  obtain ⟨hle, hlt, hround, hsticky⟩ := h
  cases r <;> cases s <;>
    simp only [Bool.false_eq_true, false_iff, true_iff, not_le, not_or, reduceCtorEq] at hle hlt hround hsticky
  · -- the number is the mantissa itself
    have hx : x = m := by
      rcases hsticky with hx | hx
      · exact hx
      · linarith
    rw [hx]
    exact nearestEven_natCast m
  · -- the number lies below the half
    change NearestEven x m
    exact ⟨hround.le, by linarith, fun hx => by linarith, fun hx => by linarith⟩
  · -- the number is the half, and rounds to the even side
    have hx : x = m + 1 / 2 := by
      rcases hsticky with hx | hx
      · linarith
      · exact hx
    change NearestEven x (m + m % 2)
    rcases Nat.mod_two_eq_zero_or_one m with hbit | hbit
    · rw [hbit, add_zero]
      exact ⟨hx.le, by linarith, fun _ => hbit, fun _ => hbit⟩
    · rw [hbit]
      refine ⟨?_, ?_, fun _ => by omega, fun _ => by omega⟩ <;> push_cast <;> linarith
  · -- the number lies above the half
    have hhalf : x ≠ m + 1 / 2 := hsticky.2
    have habove : m + 1 / 2 < x := lt_of_le_of_ne hround hhalf.symm
    change NearestEven x (m + 1)
    refine ⟨?_, ?_, fun hx => ?_, fun hx => ?_⟩ <;> push_cast at * <;> linarith

/-- A fraction is kept by its whole part and the remainder. -/
theorem keeps_fraction (n : ℕ) {d : ℕ} (hd : 0 < d) :
    Keeps (ExtendedMantissa.ofMantissaAndAccuracy (n / d) (accuracyOfFraction (n % d) d))
      ((n : ℚ) / d) := by
  have hd' : (0 : ℚ) < d := by exact_mod_cast hd
  have hdvd : (n : ℚ) = d * (n / d : ℕ) + (n % d : ℕ) := by exact_mod_cast (Nat.div_add_mod n d).symm
  have hrem : ((n % d : ℕ) : ℚ) < d := by exact_mod_cast Nat.mod_lt n hd
  have hx : (n : ℚ) / d = (n / d : ℕ) + (n % d : ℕ) / (d : ℚ) := by
    rw [hdvd, add_div, mul_div_cancel_left₀ _ hd'.ne']
  rw [hx]
  clear hdvd hx
  generalize n / d = q
  generalize n % d = r at hrem
  have hlt : (r : ℚ) / d < 1 := (div_lt_one₀ hd').mpr hrem
  have hnonneg : 0 ≤ (r : ℚ) / d := div_nonneg r.cast_nonneg hd'.le
  have hhalf : (r : ℚ) / d < 1 / 2 ↔ 2 * r < d := by
    rw [div_lt_div_iff₀ hd' two_pos, one_mul, mul_comm]
    exact_mod_cast Iff.rfl
  have hhalf' : 1 / 2 < (r : ℚ) / d ↔ d < 2 * r := by
    rw [div_lt_div_iff₀ two_pos hd', one_mul, mul_comm]
    exact_mod_cast Iff.rfl
  by_cases hr : r = 0
  · subst hr
    refine ⟨?_, ?_, ?_, ?_⟩ <;>
      simp [accuracyOfFraction, ExtendedMantissa.ofMantissaAndAccuracy]
  · have hpos : 0 < (r : ℚ) / d := div_pos (by exact_mod_cast Nat.pos_of_ne_zero hr) hd'
    rw [accuracyOfFraction, if_neg hr]
    rcases lt_trichotomy (2 * r) d with hc | hc | hc
    · rw [compare_lt_iff_lt.mpr hc]
      have := hhalf.mpr hc
      refine ⟨?_, ?_, ?_, ?_⟩ <;> simp only [ExtendedMantissa.ofMantissaAndAccuracy]
      · linarith
      · linarith
      · exact iff_of_false Bool.false_ne_true (by linarith)
      · refine iff_of_false (by decide) ?_
        rintro (h | h) <;> linarith
    · rw [compare_eq_iff_eq.mpr hc]
      have hle : ¬(r : ℚ) / d < 1 / 2 := fun h => by have := hhalf.mp h; omega
      have hge : ¬1 / 2 < (r : ℚ) / d := fun h => by have := hhalf'.mp h; omega
      refine ⟨?_, ?_, ?_, ?_⟩ <;> simp only [ExtendedMantissa.ofMantissaAndAccuracy]
      · linarith
      · linarith
      · exact iff_of_true trivial (by linarith)
      · exact iff_of_true trivial (Or.inr (by linarith))
    · rw [compare_gt_iff_gt.mpr hc]
      have := hhalf'.mpr hc
      refine ⟨?_, ?_, ?_, ?_⟩ <;> simp only [ExtendedMantissa.ofMantissaAndAccuracy]
      · linarith
      · linarith
      · exact iff_of_true trivial (by linarith)
      · refine iff_of_false (by decide) ?_
        rintro (h | h) <;> linarith

/-! ## Rounding on a binary grid -/

/-- The exponent of the grid on which a number is rounded: the number has at most 53 binary places
before the grid, and no fewer unless the exponent is the least one. -/
structure GridExponent (v : ℚ) (e : ℤ) : Prop where
  /-- No grid is finer than that of the smallest doubles. -/
  min_le : -1074 ≤ e
  /-- The number has at most 53 places. -/
  lt_zpow : v < 2 ^ (e + 53)
  /-- The number has at least 53 places where a finer grid exists. -/
  zpow_le : e = -1074 ∨ 2 ^ (e + 52) ≤ v

/-- A multiple of a grid's unit; a mantissa that has become too long is halved. -/
def onGrid (m : ℕ) (e : ℤ) : UnpackedFloat :=
  if h : m = 0 then .zero .positive
  else if m < 2 ^ 53 then .finite .positive m e (Nat.pos_of_ne_zero h)
  else .finite .positive (2 ^ 52) (e + 1) (by decide)

private theorem targetExponent_eq (m : ℕ) (e : ℤ) :
    Format.binary64.targetExponent (totalExponent m e) = max (m.log2 + e - 52) (-1074) := by
  simp only [Format.targetExponent, totalExponent, Format.mantissaBits, Format.minExponent]
  norm_num
  omega

private theorem shift_carried {m : ℕ} {e : ℤ} (hm : m ≤ 2 ^ 53) (he : -1074 ≤ e) :
    shiftToTargetExponent .binary64 m e .exact =
      if m < 2 ^ 53 then (⟨m, false, false⟩, e) else (⟨2 ^ 52, false, false⟩, e + 1) := by
  rw [shiftToTargetExponent, targetExponent_eq]
  by_cases hlt : m < 2 ^ 53
  · have hlog : m.log2 ≤ 52 := by
      by_cases hz : m = 0
      · subst hz
        decide
      · have := (Nat.log2_lt hz).mpr hlt
        omega
    have hshift : (max ((m.log2 : ℤ) + e - 52) (-1074) - e).toNat = 0 := by omega
    rw [if_pos hlt, shiftToExponent, hshift]
    exact Prod.ext rfl (add_zero e)
  · have htop : m = 2 ^ 53 := by omega
    subst htop
    have hshift : (max (((2 ^ 53 : ℕ).log2 : ℤ) + e - 52) (-1074) - e).toNat = 1 := by
      rw [Nat.log2_two_pow]
      omega
    rw [if_neg hlt, shiftToExponent, hshift]
    rfl

/-- A number whose whole part, in steps of `2 ^ e`, is `m` belongs to the grid that the length of `m`
asks for. -/
theorem gridExponent_of_log2 {m : ℕ} {e f : ℤ} {x : ℚ} (hle : (m : ℚ) ≤ x) (hlt : x < m + 1)
    (hplaces : 52 ≤ m.log2 ∨ e ≤ -1074) (hf : max ((m.log2 : ℤ) + e - 52) (-1074) = f) :
    GridExponent (x * 2 ^ e) f := by
  have htwo : (0 : ℚ) < 2 := two_pos
  refine ⟨by omega, ?_, ?_⟩
  · have hbits : (m : ℚ) + 1 ≤ 2 ^ (m.log2 + 1) := by exact_mod_cast Nat.lt_log2_self
    calc x * 2 ^ e < 2 ^ (m.log2 + 1) * 2 ^ e :=
          mul_lt_mul_of_pos_right (hlt.trans_le hbits) (zpow_pos htwo e)
      _ = 2 ^ ((m.log2 : ℤ) + 1 + e) := by
          rw [zpow_add₀ htwo.ne']
          exact_mod_cast rfl
      _ ≤ 2 ^ (f + 53) := zpow_le_zpow_right₀ one_le_two (by omega)
  · by_cases hmin : f = -1074
    · exact Or.inl hmin
    · have hm : m ≠ 0 := by
        rintro rfl
        rw [Nat.log2_zero] at hf hplaces
        omega
      have hbits : (2 : ℚ) ^ m.log2 ≤ m := by exact_mod_cast Nat.log2_self_le hm
      refine Or.inr ?_
      calc (2 : ℚ) ^ (f + 52) = 2 ^ ((m.log2 : ℤ) + e) := by
            congr 1
            omega
        _ = 2 ^ m.log2 * 2 ^ e := by rw [zpow_add₀ htwo.ne', zpow_natCast]
        _ ≤ x * 2 ^ e := mul_le_mul_of_nonneg_right (hbits.trans hle) (zpow_pos htwo e).le

/-- Rounding picks the nearest point of the grid that belongs to the number. -/
theorem exists_onGrid_of_round {m : ℕ} {e : ℤ} {a : Accuracy} {x : ℚ}
    (hkeeps : Keeps (ExtendedMantissa.ofMantissaAndAccuracy m a) x)
    (hplaces : 52 ≤ m.log2 ∨ e ≤ -1074) :
    ∃ n f, GridExponent (x * 2 ^ e) f ∧ NearestEven (x * 2 ^ e / 2 ^ f) n ∧
      roundWithAccuracy .binary64 .positive m e a = onGrid n f := by
  have hmantissa : (ExtendedMantissa.ofMantissaAndAccuracy m a).mantissa = m := by
    cases a with
    | exact => rfl
    | inexact o => cases o <;> rfl
  obtain ⟨hle, hlt, -, -⟩ := id hkeeps
  rw [hmantissa] at hle hlt
  have htwo : (0 : ℚ) < 2 := two_pos
  -- the shift that rounding starts with reaches the grid exactly
  obtain ⟨s, hs⟩ : ∃ s : ℕ, max ((m.log2 : ℤ) + e - 52) (-1074) = e + s :=
    ⟨(max ((m.log2 : ℤ) + e - 52) (-1074) - e).toNat, by omega⟩
  have hshift : shiftToTargetExponent .binary64 m e a =
      (ExtendedMantissa.ofMantissaAndAccuracy m a >>> s, e + s) := by
    rw [shiftToTargetExponent, targetExponent_eq, hs, shiftToExponent, add_sub_cancel_left,
      Int.toNat_natCast]
  have hscale : x * 2 ^ e / 2 ^ (e + s) = x / 2 ^ s := by
    rw [zpow_add₀ htwo.ne', zpow_natCast]
    field_simp
  have hgrid : GridExponent (x * 2 ^ e) (e + s) := gridExponent_of_log2 hle hlt hplaces hs
  have hnearest := (hkeeps.shiftRight s).nearestEven
  refine ⟨_, e + s, hgrid, hscale ▸ hnearest, ?_⟩
  have htop : (ExtendedMantissa.ofMantissaAndAccuracy m a >>> s).roundedMantissa ≤ 2 ^ 53 := by
    refine hnearest.mono (nearestEven_natCast (2 ^ 53)) ?_
    rw [← hscale, div_le_iff₀ (zpow_pos htwo _)]
    refine hgrid.lt_zpow.le.trans_eq ?_
    rw [add_comm, zpow_add₀ htwo.ne']
    norm_num
  rw [roundWithAccuracy, hshift]
  dsimp only
  rw [shift_carried htop hgrid.min_le, onGrid]
  generalize (ExtendedMantissa.ofMantissaAndAccuracy m a >>> s).roundedMantissa = n
  by_cases hcarry : n < 2 ^ 53
  · simp only [if_pos hcarry]
  · have hn : n ≠ 0 := by omega
    simp only [if_neg hcarry, dif_neg hn]
    rfl

/-- The quotient of two counts, before it is packed, is the nearest point of the grid that belongs to
the exact quotient. -/
theorem exists_onGrid_of_div {n d : ℕ} (hn : 0 < n) (hd : 0 < d) :
    ∃ m e, GridExponent ((n : ℚ) / d) e ∧ NearestEven ((n : ℚ) / d / 2 ^ e) m ∧
      (exactCount n).div .binary64 (exactCount d) = onGrid m e := by
  obtain ⟨k, hk⟩ : ∃ k : ℕ,
      min 0 (max ((n.log2 : ℤ) - d.log2 - 53) (-1074)) = -(k : ℤ) :=
    ⟨(-min 0 (max ((n.log2 : ℤ) - d.log2 - 53) (-1074))).toNat, by omega⟩
  have hcore : divCore .binary64 n 0 d 0 =
      (n * 2 ^ k / d, -(k : ℤ), accuracyOfFraction (n * 2 ^ k % d) d) := by
    have htarget : min (0 - 0) (Format.binary64.targetExponent
        (totalExponent n 0 - totalExponent d 0)) = -(k : ℤ) := by
      rw [← hk]
      simp only [Format.targetExponent, totalExponent, Format.mantissaBits, Format.minExponent]
      norm_num
    rw [divCore, htarget]
    simp only [sub_zero, sub_neg_eq_add, zero_add, Int.toNat_natCast, Nat.shiftLeft_eq]
  -- the quotient of the shifted mantissas has at least 53 places, unless it is on the finest grid
  have hplaces : 52 ≤ (n * 2 ^ k / d).log2 ∨ -(k : ℤ) ≤ -1074 := by
    by_cases hmin : -(k : ℤ) ≤ -1074
    · exact Or.inr hmin
    · have hlog : d.log2 + 53 ≤ n.log2 + k := by omega
      have hquotient : 2 ^ 52 ≤ n * 2 ^ k / d := by
        rw [Nat.le_div_iff_mul_le hd]
        calc 2 ^ 52 * d ≤ 2 ^ 52 * 2 ^ (d.log2 + 1) := Nat.mul_le_mul_left _ Nat.lt_log2_self.le
          _ = 2 ^ (d.log2 + 53) := by rw [← pow_add]; congr 1; omega
          _ ≤ 2 ^ (n.log2 + k) := Nat.pow_le_pow_right two_pos hlog
          _ = 2 ^ n.log2 * 2 ^ k := pow_add 2 n.log2 k
          _ ≤ n * 2 ^ k := Nat.mul_le_mul_right _ (Nat.log2_self_le hn.ne')
      exact Or.inl ((Nat.le_log2 (by omega)).mpr hquotient)
  obtain ⟨m, e, hgrid, hnearest, hround⟩ :=
    exists_onGrid_of_round (keeps_fraction (n * 2 ^ k) hd) hplaces
  have hvalue : ((n * 2 ^ k : ℕ) : ℚ) / d * 2 ^ (-(k : ℤ)) = n / d := by
    rw [zpow_neg, zpow_natCast]
    push_cast
    field_simp
  rw [hvalue] at hgrid hnearest
  refine ⟨m, e, hgrid, hnearest, ?_⟩
  obtain ⟨n, rfl⟩ := Nat.exists_eq_succ_of_ne_zero hn.ne'
  obtain ⟨d, rfl⟩ := Nat.exists_eq_succ_of_ne_zero hd.ne'
  change roundWithAccuracy .binary64 .positive (divCore .binary64 (n + 1) 0 (d + 1) 0).1
    (divCore .binary64 (n + 1) 0 (d + 1) 0).2.1 (divCore .binary64 (n + 1) 0 (d + 1) 0).2.2 = _
  rw [hcore]
  exact hround

/-! ## The standing of a rounded quotient -/

/-- A finer grid belongs to a smaller number. -/
theorem GridExponent.mono {v w : ℚ} {e f : ℤ} (hv : GridExponent v e) (hw : GridExponent w f)
    (hvw : v ≤ w) : e ≤ f := by
  by_contra hfe
  rcases hv.zpow_le with hmin | hlow
  · have := hw.min_le
    omega
  · have hpow : (2 : ℚ) ^ (f + 53) ≤ 2 ^ (e + 52) := zpow_le_zpow_right₀ one_le_two (by omega)
    linarith [hw.lt_zpow]

/-- The grid of the numbers from one on has 52 places after the point. -/
theorem gridExponent_one : GridExponent 1 (-52) where
  min_le := by decide
  lt_zpow := by norm_num
  zpow_le := Or.inr (by norm_num)

/-- On all grids but the finest a mantissa has its full length. -/
theorem GridExponent.le_mantissa {v : ℚ} {e : ℤ} {m : ℕ} (hv : GridExponent v e)
    (hm : NearestEven (v / 2 ^ e) m) (he : e ≠ -1074) : 2 ^ 52 ≤ m := by
  refine (nearestEven_natCast (2 ^ 52)).mono hm ?_
  rw [le_div_iff₀ (zpow_pos two_pos e)]
  refine Eq.trans_le ?_ (hv.zpow_le.resolve_left he)
  rw [add_comm, zpow_add₀ two_ne_zero]
  norm_num

/-- No point of a grid stands below zero. -/
theorem zero_le_unpackedStanding_onGrid (m : ℕ) (e : ℤ) :
    toLex (0, toLex (0, 0)) ≤ unpackedStanding (onGrid m e) := by
  rw [onGrid]
  split_ifs <;> simp only [unpackedStanding, Prod.Lex.toLex_le_toLex, true_and] <;> omega

/-- The larger of two numbers is rounded to a number that stands no lower. -/
theorem unpackedStanding_onGrid_le {v w : ℚ} {e f : ℤ} {m n : ℕ} (hv : GridExponent v e)
    (hw : GridExponent w f) (hm : NearestEven (v / 2 ^ e) m) (hn : NearestEven (w / 2 ^ f) n)
    (hvw : v ≤ w) : unpackedStanding (onGrid m e) ≤ unpackedStanding (onGrid n f) := by
  have hef := hv.mono hw hvw
  have hstep : e = f ∧ m ≤ n ∨ e < f ∧ 2 ^ 52 ≤ n := by
    rcases hef.eq_or_lt with rfl | hlt
    · exact Or.inl ⟨rfl, hm.mono hn (div_le_div_of_nonneg_right hvw (zpow_pos two_pos e).le)⟩
    · exact Or.inr ⟨hlt, hw.le_mantissa hn (by have := hv.min_le; omega)⟩
  by_cases hm0 : m = 0
  · rw [onGrid, dif_pos hm0]
    exact zero_le_unpackedStanding_onGrid n f
  · have hn0 : n ≠ 0 := by omega
    rw [onGrid, onGrid, dif_neg hm0, dif_neg hn0]
    split_ifs <;> simp only [unpackedStanding, Prod.Lex.toLex_le_toLex, true_and] <;> omega

/-- A number whose grid is in range is rounded within the format, so storing it loses nothing. -/
theorem unpack_pack_onGrid {v : ℚ} {m : ℕ} {e : ℤ} (hv : GridExponent v e)
    (hm : NearestEven (v / 2 ^ e) m) (he : e ≤ 970) :
    (Float.Model.pack (onGrid m e)).unpack = onGrid m e := by
  have hmin := hv.min_le
  rw [onGrid]
  split_ifs with hzero hshort
  · rfl
  · refine unpack_pack_finite .positive ⟨Nat.pos_of_ne_zero hzero, hshort, hmin, by omega, ?_⟩
    by_cases hbottom : e = -1074
    · exact Or.inl hbottom
    · exact Or.inr (hv.le_mantissa hm hbottom)
  · exact unpack_pack_finite .positive ⟨by decide, by decide, by omega, by omega, Or.inr le_rfl⟩

/-! ## The quotient of two counts -/

/-- A quotient of counts that is at most one is stored as the nearest point of its grid. -/
theorem exists_onGrid_countQuotient {n d : ℕ} (hn : 0 < n) (hnd : n ≤ d) :
    ∃ m e, GridExponent ((n : ℚ) / d) e ∧ NearestEven ((n : ℚ) / d / 2 ^ e) m ∧
      countQuotient n d = .ofModel (.pack (onGrid m e)) ∧
      (countQuotient n d).toModel.unpack = onGrid m e := by
  obtain ⟨m, e, hgrid, hnearest, hdiv⟩ := exists_onGrid_of_div hn (hn.trans_le hnd)
  have hone : (n : ℚ) / d ≤ 1 := div_le_one_of_le₀ (by exact_mod_cast hnd) d.cast_nonneg
  have he : e ≤ -52 := hgrid.mono gridExponent_one hone
  refine ⟨m, e, hgrid, hnearest, ?_, ?_⟩
  · rw [countQuotient, hdiv]
  · rw [countQuotient, hdiv, unpack_pack_onGrid hgrid hnearest (by omega)]

/-- Nothing out of something is zero. -/
theorem countQuotient_zero {d : ℕ} (hd : 0 < d) : countQuotient 0 d = 0.0 := by
  obtain ⟨d, rfl⟩ := Nat.exists_eq_succ_of_ne_zero hd.ne'
  rfl

/-- All out of all is one. -/
theorem countQuotient_self {d : ℕ} (hd : 0 < d) : countQuotient d d = 1.0 := by
  obtain ⟨m, e, hgrid, hnearest, hvalue, -⟩ := exists_onGrid_countQuotient hd le_rfl
  rw [div_self (by exact_mod_cast hd.ne')] at hgrid hnearest
  have he : e = -52 := le_antisymm (hgrid.mono gridExponent_one le_rfl)
    (gridExponent_one.mono hgrid le_rfl)
  subst he
  have htop : (1 : ℚ) / 2 ^ (-52 : ℤ) = (2 ^ 52 : ℕ) := by norm_num
  rw [htop] at hnearest
  have hm : m = 2 ^ 52 := le_antisymm (hnearest.mono (nearestEven_natCast _) le_rfl)
    ((nearestEven_natCast _).mono hnearest le_rfl)
  rw [hvalue, hm]
  rfl

theorem isNaN_onGrid (m : ℕ) (e : ℤ) : (onGrid m e).isNaN = false := by
  rw [onGrid]
  split_ifs <;> rfl

private theorem isNaN_countQuotient {n d : ℕ} (hnd : n ≤ d) (hd : 0 < d) :
    (countQuotient n d).isNaN = false := by
  rcases n.eq_zero_or_pos with rfl | hn
  · rw [countQuotient_zero hd]
    rfl
  · obtain ⟨m, e, -, -, -, hunpack⟩ := exists_onGrid_countQuotient hn hnd
    change (countQuotient n d).toModel.unpack.isNaN = false
    rw [hunpack, isNaN_onGrid]

/-- A larger part of a whole has a quotient that is no less. -/
theorem countQuotient_le_countQuotient {k n d : ℕ} (hkn : k ≤ n) (hnd : n ≤ d) (hd : 0 < d) :
    countQuotient k d ≤ countQuotient n d := by
  refine float_le_iff.mpr ⟨isNaN_countQuotient (hkn.trans hnd) hd, isNaN_countQuotient hnd hd, ?_⟩
  rcases k.eq_zero_or_pos with rfl | hk
  · rw [countQuotient_zero hd]
    rcases n.eq_zero_or_pos with rfl | hn
    · rw [countQuotient_zero hd]
    · obtain ⟨m, e, -, -, -, hunpack⟩ := exists_onGrid_countQuotient hn hnd
      rw [standing, standing, hunpack]
      exact zero_le_unpackedStanding_onGrid m e
  · obtain ⟨m, e, hgrid, hnearest, -, hunpack⟩ := exists_onGrid_countQuotient hk (hkn.trans hnd)
    obtain ⟨m', e', hgrid', hnearest', -, hunpack'⟩ :=
      exists_onGrid_countQuotient (hk.trans_le hkn) hnd
    rw [standing, standing, hunpack, hunpack']
    refine unpackedStanding_onGrid_le hgrid hgrid' hnearest hnearest' ?_
    exact div_le_div_of_nonneg_right (by exact_mod_cast hkn) d.cast_nonneg

end RankingEval.Number
