/-
# How far simplification moves the area

With a tolerance, simplification also takes points away at which a curve turns a little. Every such turn
is bounded by the tolerance and the lengths of the two steps, the first of which may itself stand for many
steps that were joined before. It is never longer than the way along the raw points, however, so that the
changes of the area add up to no more than the tolerance times the square of the length of the whole way.
Lengths are measured along the axes, which keeps them rational.
-/

import Mathlib
import RankingEval.Proofs.Curve.Buffer
import RankingEval.Proofs.Curve.ExactArea

namespace RankingEval.Curve

open RankingEval.Number

/-! ## One turn -/

/-- The turn between two steps is within the tolerance when their cross product is at most the tolerance
times the product of their lengths. The definition compares squares, which are rational. -/
theorem turnWithin_iff {tolerance : ℚ} (htolerance : 0 ≤ tolerance) (a b c d : ℚ) :
    Coordinate.turnWithin tolerance a b c d = true ↔
      |((a * d - b * c : ℚ) : ℝ)| ≤
        tolerance * (√((a : ℝ) ^ 2 + (b : ℝ) ^ 2) * √((c : ℝ) ^ 2 + (d : ℝ) ^ 2)) := by
  have hbound : (0 : ℝ) ≤
      tolerance * (√((a : ℝ) ^ 2 + (b : ℝ) ^ 2) * √((c : ℝ) ^ 2 + (d : ℝ) ^ 2)) := by
    have hcast : (0 : ℝ) ≤ tolerance := by exact_mod_cast htolerance
    positivity
  rw [← abs_of_nonneg hbound, ← sq_le_sq, mul_pow, mul_pow, Real.sq_sqrt (by positivity),
    Real.sq_sqrt (by positivity)]
  change decide ((a * d - b * c) * (a * d - b * c) ≤
    tolerance * tolerance * ((a * a + b * b) * (c * c + d * d))) = true ↔ _
  rw [decide_eq_true_eq]
  norm_cast
  simp only [sq]

/-- The length of a step along the axes. -/
def taxicab (a b : Point ℚ) : ℚ := |b.x - a.x| + |b.y - a.y|

theorem taxicab_nonneg (a b : Point ℚ) : 0 ≤ taxicab a b :=
  add_nonneg (abs_nonneg _) (abs_nonneg _)

theorem taxicab_triangle (a b c : Point ℚ) : taxicab a c ≤ taxicab a b + taxicab b c := by
  have hx := abs_sub_le c.x b.x a.x
  have hy := abs_sub_le c.y b.y a.y
  simp only [taxicab]
  linarith

/-- A step is no longer than its length along the axes. -/
theorem sqrt_le_taxicab (a b : Point ℚ) :
    √(((b.x - a.x : ℚ) : ℝ) ^ 2 + ((b.y - a.y : ℚ) : ℝ) ^ 2) ≤ (taxicab a b : ℝ) := by
  rw [Real.sqrt_le_left (by exact_mod_cast taxicab_nonneg a b)]
  norm_cast
  rw [taxicab, add_sq, sq_abs, sq_abs]
  have hmixed : 0 ≤ 2 * |b.x - a.x| * |b.y - a.y| := by positivity
  linarith

/-- A turn that counts as straight is at most the tolerance times the lengths of its steps. -/
theorem abs_turn_le {tolerance : ℚ} (htolerance : 0 ≤ tolerance) {a b c : Point ℚ}
    (h : continuesForward tolerance a b c = true) :
    |turn a b c| ≤ tolerance * (taxicab a b * taxicab b c) := by
  rw [continuesForward, Bool.and_eq_true] at h
  have hcross := (turnWithin_iff htolerance _ _ _ _).mp h.1
  have hcast : (0 : ℝ) ≤ tolerance := by exact_mod_cast htolerance
  have hlengths : |(turn a b c : ℝ)| ≤ tolerance * ((taxicab a b : ℝ) * taxicab b c) := by
    apply hcross.trans
    apply mul_le_mul_of_nonneg_left _ hcast
    apply mul_le_mul (sqrt_le_taxicab a b) (sqrt_le_taxicab b c) (Real.sqrt_nonneg _)
    exact_mod_cast taxicab_nonneg a b
  exact_mod_cast hlengths

/-! ## All turns -/

/-- The length of a polyline along the axes. -/
def taxicabLength : List (Point ℚ) → ℚ
  | a :: b :: rest => taxicab a b + taxicabLength (b :: rest)
  | _ => 0

/-- The turns that are straightened add up to no more than what the length of the way allows. The polyline
so far is listed from its last point backwards, and `reach` bounds the length of its last segment. -/
theorem abs_sum_bends_le {tolerance : ℚ} (htolerance : 0 ≤ tolerance) (points : List (Point ℚ))
    {last : Point ℚ} {others : List (Point ℚ)} {reach : ℚ} (hnonneg : 0 ≤ reach)
    (hreach : ∀ a ∈ others.head?, taxicab a last ≤ reach) :
    |(bends tolerance (last :: others) points).sum| ≤
      tolerance / 2 * ((reach + taxicabLength (last :: points)) ^ 2 - reach ^ 2) := by
  induction points generalizing last others reach with
  | nil => simp [bends, taxicabLength]
  | cons p points ih =>
      have hstep := taxicab_nonneg last p
      have hnonneg' : 0 ≤ reach + taxicab last p := add_nonneg hnonneg hstep
      have hbend : |bend tolerance (last :: others) p| ≤ tolerance * (reach * taxicab last p) ∧
          |(bends tolerance (extend tolerance (last :: others) p) points).sum| ≤
            tolerance / 2 * ((reach + taxicab last p + taxicabLength (p :: points)) ^ 2 -
              (reach + taxicab last p) ^ 2) := by
        rcases extend_cases tolerance (last :: others) p with
          ⟨heq, hbend⟩ | ⟨b, a, rest, hpolyline, hforward, heq, hbend⟩
        · rw [heq, hbend, abs_zero]
          constructor
          · positivity
          · apply ih hnonneg'
            rintro a ⟨⟩
            linarith
        · obtain ⟨rfl, rfl⟩ := List.cons.inj hpolyline
          have hsegment := hreach a rfl
          rw [heq, hbend]
          constructor
          · apply (abs_turn_le htolerance hforward).trans
            gcongr
          · -- the joined segment is no longer than the two that it stands for
            apply ih hnonneg'
            rintro a' ⟨⟩
            linarith [taxicab_triangle a last p]
      rw [bends, List.sum_cons, taxicabLength]
      apply (abs_add_le _ _).trans
      have hsquare : 0 ≤ tolerance / 2 * taxicab last p ^ 2 := by positivity
      linarith [hbend.1, hbend.2]

/-- All turns that are straightened add up to no more than half the tolerance times the square of the length
of the way. -/
theorem abs_sum_bends_le_length {tolerance : ℚ} (htolerance : 0 ≤ tolerance)
    (points : List (Point ℚ)) :
    |(bends tolerance [] points).sum| ≤ tolerance / 2 * taxicabLength points ^ 2 := by
  cases points with
  | nil => simp [bends, taxicabLength]
  | cons p points =>
      have hbound := @abs_sum_bends_le _ htolerance points p [] 0 le_rfl (by simp)
      simpa [bends, bend, extend] using hbound

/-! ## The area -/

/-- Simplification changes the area under a curve by little. For points that run from left to right, let
one curve take them all and another take them with simplification. Both have an area, and the areas differ
by no more than half the tolerance times the square of the length of the way along the points. Where only
exact continuations are joined, so that no turn is straightened, the areas are equal. -/
theorem abs_area_sub_area_le {tolerance : ℚ} (htolerance : 0 ≤ tolerance) (labelX labelY : String)
    (size : ℤ) {points : List (Point ℚ)} (ordered : points.Pairwise fun p q => p.x ≤ q.x) :
    ∃ raw kept : ℚ,
      (points.foldl Curve.addPoint (.ofSize labelX labelY size)).area = .ok raw ∧
      (points.foldl (Curve.extendTo tolerance) (.ofSize labelX labelY size)).area = .ok kept ∧
      |raw - kept| ≤ tolerance / 2 * taxicabLength points ^ 2 ∧
      ((∀ w ∈ bends tolerance [] points, w = 0) → raw = kept) := by
  have hkept := ordered.sublist (simplified_sublist tolerance points)
  refine ⟨(strips points).sum, (strips (simplified tolerance points)).sum, ?_, ?_, ?_, ?_⟩
  · rw [Curve.area, Curve.points_foldl_addPoint, area?_of_ordered ordered]
  · rw [Curve.area, Curve.points_foldl_extendTo, area?_of_ordered hkept]
  · calc |(strips points).sum - (strips (simplified tolerance points)).sum|
        = |(bends tolerance [] points).sum| / 2 := by
          rw [sum_strips_simplified, sub_add_cancel_left, abs_neg, abs_div, abs_two]
      _ ≤ |(bends tolerance [] points).sum| := half_le_self (abs_nonneg _)
      _ ≤ tolerance / 2 * taxicabLength points ^ 2 := abs_sum_bends_le_length htolerance points
  · intro hzero
    rw [sum_strips_simplified, List.sum_eq_zero hzero, zero_div, add_zero]

/-- Two steps with a slight turn between them are joined, and the area moves by less than the bound. -/
theorem abs_area_sub_area_le_slight_turn :
    continuesForward exactStraightness ⟨0, 0⟩ ⟨1, 0⟩ ⟨2, 1 / 10 ^ 14⟩ = true ∧
      ∃ raw kept : ℚ,
        ([⟨0, 0⟩, ⟨1, 0⟩, ⟨2, 1 / 10 ^ 14⟩].foldl Curve.addPoint (.ofSize "X" "Y" 10)).area = .ok raw ∧
        ([⟨0, 0⟩, ⟨1, 0⟩, ⟨2, 1 / 10 ^ 14⟩].foldl (Curve.extendTo exactStraightness)
          (.ofSize "X" "Y" 10)).area = .ok kept ∧
        |raw - kept| ≤ exactStraightness / 2 * (2 + 1 / 10 ^ 14) ^ 2 := by
  constructor
  · norm_num [continuesForward, Coordinate.turnWithin, exactStraightness]
  · have hstraightness : 0 ≤ exactStraightness := by norm_num [exactStraightness]
    obtain ⟨raw, kept, hraw, hkept, hle, -⟩ := @abs_area_sub_area_le _ hstraightness "X" "Y" 10
      [⟨0, 0⟩, ⟨1, 0⟩, ⟨2, 1 / 10 ^ 14⟩] (by norm_num)
    have hlength : taxicabLength [⟨0, 0⟩, ⟨1, 0⟩, ⟨2, 1 / 10 ^ 14⟩] = 2 + 1 / 10 ^ 14 := by
      norm_num [taxicabLength, taxicab]
    rw [hlength] at hle
    exact ⟨raw, kept, hraw, hkept, hle⟩

end RankingEval.Curve
