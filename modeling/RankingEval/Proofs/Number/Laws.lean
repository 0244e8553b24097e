/-
# Laws of coordinates

What the theory of curves needs to know of the numbers that a curve is drawn in: parts of a whole have
quotients in the order of the parts, from zero to one, and a number does not fall below zero when a
smaller one is taken from it. Rationals obey these laws because they are exact. Doubles obey them although
every operation rounds, because correct rounding is monotone.
-/

import Mathlib
import RankingEval.Proofs.Number.Rounding

namespace RankingEval.Number

/-- Numbers whose order and whose quotients of counts behave as in exact arithmetic. -/
class LawfulCoordinate (α : Type) [Coordinate α] : Prop where
  /-- Taking a number from one that is no less does not lead below zero. -/
  not_sub_lt_zero {a b : α} : 0 ≤ a → a ≤ b → ¬b - a < 0
  /-- Nothing out of something is zero. -/
  quotient_zero {d : Nat} : 0 < d → (Coordinate.quotient 0 d : α) = 0
  /-- All out of all is one. -/
  quotient_self {d : Nat} : 0 < d → (Coordinate.quotient d d : α) = 1
  /-- A larger part of a whole has a quotient that is no less. -/
  quotient_le_quotient {k n d : Nat} : k ≤ n → n ≤ d → 0 < d →
    (Coordinate.quotient k d : α) ≤ Coordinate.quotient n d

instance : LawfulCoordinate Rat where
  not_sub_lt_zero _ hab := not_lt.mpr (sub_nonneg.mpr hab)
  quotient_zero _ := zero_div _
  quotient_self hd := div_self (by exact_mod_cast hd.ne')
  quotient_le_quotient hkn _ _ :=
    div_le_div_of_nonneg_right (by exact_mod_cast hkn) (Nat.cast_nonneg _)

/-! ## Differences of doubles -/

open Float.Model Float.Model.UnpackedFloat

/-- Rounding a whole multiple of a power of two keeps it from falling below zero. -/
private theorem zero_le_unpackedStanding_normalize {m : ℤ} (hm : 0 ≤ m) (e : ℤ) :
    toLex (0, toLex (0, 0)) ≤ unpackedStanding (normalize .binary64 m e .positive) := by
  rw [UnpackedFloat.normalize]
  rcases hm.eq_or_lt with rfl | hpos
  · rw [compare_eq_iff_eq.mpr rfl]
    exact le_rfl
  · rw [compare_gt_iff_gt.mpr hpos]
    dsimp only [UnpackedFloat.round, UnpackedFloat.roundWithAccuracy]
    split_ifs
    · exact le_rfl
    · exact Prod.Lex.toLex_le_toLex.mpr (Or.inl zero_lt_one)

/-- Of two canonical pairs in order, brought to the lesser exponent, the first mantissa is no more. -/
private theorem decreaseExponent_le {m n : ℕ} {e f : ℤ} (hm : Canonical m e) (hn : Canonical n f)
    (h : e < f ∨ e = f ∧ (m : ℤ) ≤ n) :
    (decreaseExponent m e (min f e)).1 ≤ (decreaseExponent n f (min f e)).1 := by
  simp only [decreaseExponent, Nat.shiftLeft_eq]
  rcases h with hlt | ⟨rfl, hle⟩
  · have hfull : 2 ^ 52 ≤ n := hn.full.resolve_left (by have := hm.min_le; omega)
    obtain ⟨k, hk⟩ : ∃ k : ℕ, (f - min f e).toNat = k + 1 :=
      ⟨(f - min f e).toNat - 1, by omega⟩
    have hzero : (e - min f e).toNat = 0 := by omega
    rw [hk, hzero, pow_zero, mul_one]
    calc m ≤ 2 ^ 52 * 2 := hm.lt_two_pow.le
      _ ≤ n * 2 ^ (k + 1) := Nat.mul_le_mul hfull (Nat.le_self_pow k.succ_ne_zero 2)
  · exact Nat.mul_le_mul_right _ (by exact_mod_cast hle)

private theorem zero_le_unpackedStanding_sub {u v : UnpackedFloat} (hu : u.isNaN = false)
    (hv : v.isNaN = false) (hzero : toLex (0, toLex (0, 0)) ≤ unpackedStanding u)
    (hle : unpackedStanding u ≤ unpackedStanding v)
    (hcu : ∀ s m e pos, u = .finite s m e pos → Canonical m e)
    (hcv : ∀ s m e pos, v = .finite s m e pos → Canonical m e) :
    toLex (0, toLex (0, 0)) ≤ unpackedStanding (v.sub .binary64 u) := by
  cases v with
  | notANumber => cases hv
  | infinity t =>
      cases t with
      | negative => exact absurd (hzero.trans hle) (by decide)
      | positive =>
          cases u with
          | infinity s => cases s <;> decide
          | notANumber => cases hu
          | zero s => exact hle
          | finite s m e pos => exact hzero.trans hle
  | zero t =>
      cases u with
      | notANumber => cases hu
      | infinity s =>
          cases s with
          | negative => exact absurd hzero (by decide)
          | positive => exact absurd hle (by cases t <;> decide)
      | zero s => cases s <;> cases t <;> decide
      | finite s m e pos =>
          cases s <;> simp only [unpackedStanding, Prod.Lex.toLex_le_toLex] at hzero hle <;> omega
  | finite t n f pos' =>
      cases u with
      | notANumber => cases hu
      | infinity s =>
          cases s <;> cases t <;>
            simp only [unpackedStanding, Prod.Lex.toLex_le_toLex] at hzero hle <;> omega
      | zero s => exact hle
      | finite s m e pos =>
          cases s with
          | negative =>
              simp only [unpackedStanding, Prod.Lex.toLex_le_toLex] at hzero
              omega
          | positive =>
              cases t with
              | negative =>
                  simp only [unpackedStanding, Prod.Lex.toLex_le_toLex] at hle
                  omega
              | positive =>
                  -- both are finite and positive, and canonical pairs in order have values in order
                  simp only [unpackedStanding, Prod.Lex.toLex_le_toLex, lt_self_iff_false,
                    false_or, true_and] at hle
                  have hmantissa := decreaseExponent_le (hcu _ _ _ _ rfl) (hcv _ _ _ _ rfl) hle
                  refine zero_le_unpackedStanding_normalize ?_ _
                  exact sub_nonneg.mpr (Int.ofNat_le.mpr hmantissa)

/-- Taking a double from one that is no less does not lead below zero. -/
theorem float_not_sub_lt_zero {a b : Float} (ha : (0.0 : Float) ≤ a) (hab : a ≤ b) :
    ¬b - a < 0.0 := by
  have hzero : standing 0.0 = toLex (0, toLex (0, 0)) := rfl
  obtain ⟨-, ha, hstart⟩ := float_le_iff.mp ha
  obtain ⟨-, hb, hle⟩ := float_le_iff.mp hab
  rw [hzero] at hstart
  rw [float_lt_iff, hzero]
  rintro ⟨-, -, hlt⟩
  refine hlt.not_ge (zero_le_unpackedStanding_pack ?_)
  exact zero_le_unpackedStanding_sub ha hb hstart hle (fun _ _ _ _ => canonical_of_unpack)
    (fun _ _ _ _ => canonical_of_unpack)

instance : LawfulCoordinate Float where
  not_sub_lt_zero := float_not_sub_lt_zero
  quotient_zero := countQuotient_zero
  quotient_self := countQuotient_self
  quotient_le_quotient := countQuotient_le_countQuotient

end RankingEval.Number
