/-
# The order of doubles

The comparisons of doubles look at the sign, then at the exponent, then at the mantissa. This module
gives every double other than NaN a standing in a linear order that says the same: the comparisons of
such doubles are the comparisons of their standings, and NaN passes none. The two zeros have one
standing. What the comparisons of doubles owe to a linear order is read off from there.
-/

import Mathlib
import RankingEval.Number.Coordinate

namespace RankingEval.Number

open Float.Model Float.Model.UnpackedFloat

/-- The standing of an unpacked number: below or above zero, then by exponent, then by mantissa. -/
def unpackedStanding : UnpackedFloat → ℤ ×ₗ ℤ ×ₗ ℤ
  | .infinity .negative => toLex (-2, toLex (0, 0))
  | .finite .negative m e _ => toLex (-1, toLex (-e, -(m : ℤ)))
  | .zero _ => toLex (0, toLex (0, 0))
  | .finite .positive m e _ => toLex (1, toLex (e, (m : ℤ)))
  | .infinity .positive => toLex (2, toLex (0, 0))
  | .notANumber => toLex (3, toLex (0, 0))

/-- The standing of a double. -/
def standing (x : Float) : ℤ ×ₗ ℤ ×ₗ ℤ := unpackedStanding x.toModel.unpack

private theorem compare_toLex (s₁ s₂ e₁ e₂ m₁ m₂ : ℤ) :
    compare (toLex (s₁, toLex (e₁, m₁))) (toLex (s₂, toLex (e₂, m₂))) =
      (compare s₁ s₂).then ((compare e₁ e₂).then (compare m₁ m₂)) := rfl

private theorem compare_natCast (m₁ m₂ : ℕ) : compare (m₁ : ℤ) (m₂ : ℤ) = compare m₁ m₂ := by
  rcases lt_trichotomy m₁ m₂ with h | h | h
  · rw [compare_lt_iff_lt.mpr h, compare_lt_iff_lt.mpr (Int.ofNat_lt.mpr h)]
  · rw [h, compare_eq_iff_eq.mpr rfl, compare_eq_iff_eq.mpr rfl]
  · rw [compare_gt_iff_gt.mpr h, compare_gt_iff_gt.mpr (Int.ofNat_lt.mpr h)]

private theorem compare_neg (a b : ℤ) : compare (-a) (-b) = (compare a b).swap := by
  rcases lt_trichotomy a b with h | h | h
  · rw [compare_lt_iff_lt.mpr h, compare_gt_iff_gt.mpr (Int.neg_lt_neg h)]
    rfl
  · rw [h, compare_eq_iff_eq.mpr rfl, compare_eq_iff_eq.mpr rfl]
    rfl
  · rw [compare_gt_iff_gt.mpr h, compare_lt_iff_lt.mpr (Int.neg_lt_neg h)]
    rfl

/-- Numbers other than NaN are compared as their standings are. -/
theorem compare_eq_compare_unpackedStanding {u v : UnpackedFloat}
    (hu : u.isNaN = false) (hv : v.isNaN = false) :
    u.compare v = some (compare (unpackedStanding u) (unpackedStanding v)) := by
  cases u with
  | notANumber => cases hu
  | infinity s =>
      cases v with
      | notANumber => cases hv
      | infinity t => cases s <;> cases t <;> rfl
      | zero t => cases s <;> rfl
      | finite t m e pos => cases s <;> cases t <;> rfl
  | zero s =>
      cases v with
      | notANumber => cases hv
      | infinity t => cases t <;> rfl
      | zero t => rfl
      | finite t m e pos => cases t <;> rfl
  | finite s m e pos =>
      cases v with
      | notANumber => cases hv
      | infinity t => cases s <;> cases t <;> rfl
      | zero t => cases s <;> rfl
      | finite t n f pos' =>
          cases s <;> cases t
          · simp only [UnpackedFloat.compare, unpackedStanding, compare_toLex, compare_neg,
              compare_natCast, Ordering.swap_then]
            rfl
          · rfl
          · rfl
          · simp only [UnpackedFloat.compare, unpackedStanding, compare_toLex, compare_natCast]
            rfl

/-- NaN is compared with nothing. -/
theorem compare_eq_none {u v : UnpackedFloat} (h : u.isNaN = true ∨ v.isNaN = true) :
    u.compare v = none := by
  cases u <;> cases v <;> simp_all [UnpackedFloat.isNaN, UnpackedFloat.compare]

private theorem compare_floats (a b : Float) :
    a.toModel.unpack.compare b.toModel.unpack =
      if a.isNaN = false ∧ b.isNaN = false then some (compare (standing a) (standing b))
      else none := by
  by_cases h : a.isNaN = false ∧ b.isNaN = false
  · rw [if_pos h]
    exact compare_eq_compare_unpackedStanding h.1 h.2
  · rw [if_neg h]
    apply compare_eq_none
    by_cases ha : a.isNaN = true
    · exact Or.inl ha
    · refine Or.inr (Bool.eq_true_of_not_eq_false fun hb => h ⟨?_, hb⟩)
      exact Bool.eq_false_of_not_eq_true ha

/-- One double is at most another when both are numbers and stand in that order. -/
theorem float_le_iff {a b : Float} :
    a ≤ b ↔ a.isNaN = false ∧ b.isNaN = false ∧ standing a ≤ standing b := by
  change decide ((a.toModel.unpack.compare b.toModel.unpack).any (·.isLE) = true) = true ↔ _
  rw [decide_eq_true_eq, compare_floats, ← and_assoc]
  by_cases h : a.isNaN = false ∧ b.isNaN = false
  · rw [if_pos h, Option.any_some, ← Ordering.ne_gt_iff_isLE]
    exact compare_le_iff_le.trans (and_iff_right h).symm
  · rw [if_neg h, Option.any_none]
    exact ⟨fun impossible => absurd impossible Bool.false_ne_true, fun both => absurd both.1 h⟩

/-- One double is below another when both are numbers and stand in that order. -/
theorem float_lt_iff {a b : Float} :
    a < b ↔ a.isNaN = false ∧ b.isNaN = false ∧ standing a < standing b := by
  change decide ((a.toModel.unpack.compare b.toModel.unpack == some .lt) = true) = true ↔ _
  rw [decide_eq_true_eq, compare_floats, ← and_assoc, beq_iff_eq]
  by_cases h : a.isNaN = false ∧ b.isNaN = false
  · rw [if_pos h, Option.some_inj, compare_lt_iff_lt]
    exact (and_iff_right h).symm
  · rw [if_neg h]
    exact ⟨fun impossible => (nomatch impossible), fun both => absurd both.1 h⟩

/-- Two doubles are equal when both are numbers and have one standing. -/
theorem float_beq_iff {a b : Float} :
    (a == b) = true ↔ a.isNaN = false ∧ b.isNaN = false ∧ standing a = standing b := by
  change (a.toModel.unpack.compare b.toModel.unpack == some .eq) = true ↔ _
  rw [compare_floats, ← and_assoc, beq_iff_eq]
  by_cases h : a.isNaN = false ∧ b.isNaN = false
  · rw [if_pos h, Option.some_inj, compare_eq_iff_eq]
    exact (and_iff_right h).symm
  · rw [if_neg h]
    exact ⟨fun impossible => (nomatch impossible), fun both => absurd both.1 h⟩

end RankingEval.Number
