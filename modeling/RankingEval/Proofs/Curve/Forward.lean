/-
# Curves that run forward

The points of a precision-recall curve lie in the unit square and run from left to right. Such a curve
never doubles back, so that the area under it is defined, and simplification keeps it what it is.
-/

import Mathlib
import RankingEval.Curve.Basic
import RankingEval.Proofs.Curve.Polyline
import RankingEval.Proofs.Number.Laws

namespace RankingEval.Curve

open RankingEval.Number

variable {α : Type} [Coordinate α] {points : List (Point α)}

/-- A point of the unit square. -/
def InUnitSquare (p : Point α) : Prop := (0 ≤ p.x ∧ p.x ≤ 1) ∧ 0 ≤ p.y ∧ p.y ≤ 1

/-- The points of a curve run from left to right through the unit square. -/
structure RunsForward (points : List (Point α)) : Prop where
  /-- No point lies to the left of an earlier one. -/
  ordered : points.Pairwise fun p q => p.x ≤ q.x
  /-- Every point lies in the unit square. -/
  bounded : ∀ p ∈ points, InUnitSquare p

/-- Points picked in order from a curve that runs forward run forward. -/
theorem RunsForward.sublist {others : List (Point α)} (h : RunsForward points)
    (hsub : others.Sublist points) : RunsForward others := by
  constructor
  · exact h.ordered.sublist hsub
  · intro p hp
    exact h.bounded p (hsub.subset hp)

/-- Where no step leads to the left no width is negative. -/
theorem not_lt_zero_of_mem_widths (h : points.Pairwise fun p q => ¬q.x - p.x < 0) :
    ∀ w ∈ widths points, ¬w < 0 := by
  induction points with
  | nil => simp [widths]
  | cons p rest ih =>
      have hrest := ih h.of_cons
      cases rest with
      | nil => simp [widths]
      | cons q rest =>
          intro w hw
          rw [widths, List.mem_cons] at hw
          rcases hw with rfl | hw
          · exact List.rel_of_pairwise_cons h List.mem_cons_self
          · exact hrest w hw

/-- Where no step leads to the left the area is the sum of the strips. -/
theorem area?_of_not_lt_zero (h : points.Pairwise fun p q => ¬q.x - p.x < 0) :
    area? points = some (if points.length < 2 then 0 else blockedSum (strips points)) := by
  have hnone : (widths points).any (fun w => decide (w < 0)) = false := by
    simp only [List.any_eq_false, decide_eq_true_eq]
    exact not_lt_zero_of_mem_widths h
  have hforward : doublesBack points = false := by
    rw [doublesBack, hnone, Bool.false_and]
  by_cases hshort : points.length < 2
  · rw [area?, if_pos hshort, if_pos hshort]
  · rw [area?, if_neg hshort, if_neg hshort, hforward, hnone]
    rfl

/-- The area under a curve that runs forward is the sum of its strips. -/
theorem RunsForward.area?_eq [LawfulCoordinate α] (h : RunsForward points) :
    area? points = some (if points.length < 2 then 0 else blockedSum (strips points)) := by
  apply area?_of_not_lt_zero
  apply h.ordered.imp_of_mem
  intro p q hp _ hpq
  exact LawfulCoordinate.not_sub_lt_zero (h.bounded p hp).1.1 hpq

/-- The area under a curve whose points run forward can be computed. -/
theorem RunsForward.area_eq [LawfulCoordinate α] {c : Curve α} (h : RunsForward c.points) :
    c.area = .ok (if c.points.length < 2 then 0 else blockedSum (strips c.points)) := by
  rw [Curve.area, h.area?_eq]

end RankingEval.Curve
