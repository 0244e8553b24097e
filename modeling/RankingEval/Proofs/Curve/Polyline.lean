/-
# What simplification keeps

Adding a point to a polyline either appends it or lets it take the place of the last point. So the
polyline left of a sequence of points picks some of them in order, and the last of them among these.
Whatever holds between any two points of the sequence holds between any two that are left.
-/

import Mathlib.Data.List.Basic
import RankingEval.Curve.Polyline

namespace RankingEval.Curve

open RankingEval.Number

variable {α : Type} [Coordinate α]

/-- Extending a polyline puts the new point at its end, behind all points or all but one. -/
theorem extend_eq (tolerance : α) (ps : List (Point α)) (p : Point α) :
    extend tolerance ps p = p :: ps ∨ extend tolerance ps p = p :: ps.tail := by
  unfold extend
  split
  · split_ifs
    · exact Or.inr rfl
    · exact Or.inl rfl
  · exact Or.inl rfl

/-- In their order, the points are followed by the new one, or it takes the place of the last of at least
two. -/
theorem reverse_extend_eq (tolerance : α) (ps : List (Point α)) (p : Point α) :
    (extend tolerance ps.reverse p).reverse = ps ++ [p] ∨
      2 ≤ ps.length ∧ (extend tolerance ps.reverse p).reverse = ps.dropLast ++ [p] := by
  rcases hback : ps.reverse with _ | ⟨last, _ | ⟨before, rest⟩⟩
  · exact .inl (by simp [extend, List.reverse_eq_nil_iff.mp hback])
  · exact .inl (by simp [extend, List.reverse_eq_iff.mp hback])
  · obtain rfl : ps = (last :: before :: rest).reverse := List.reverse_eq_iff.mp hback
    rcases extend_eq tolerance (last :: before :: rest) p with heq | heq
    · exact .inl (by simp [heq])
    · exact .inr ⟨by simp, by simp [heq]⟩

/-- Extending keeps a polyline within the points given to it. -/
theorem extend_sublist (tolerance : α) {ps qs : List (Point α)} (h : ps.Sublist qs) (p : Point α) :
    (extend tolerance ps p).Sublist (p :: qs) := by
  rcases extend_eq tolerance ps p with heq | heq <;> rw [heq]
  · exact h.cons_cons p
  · exact ((List.tail_sublist ps).trans h).cons_cons p

theorem foldl_extend_sublist (tolerance : α) (points : List (Point α)) {ps qs : List (Point α)}
    (h : ps.Sublist qs) :
    (points.foldl (extend tolerance) ps).Sublist (points.reverse ++ qs) := by
  induction points generalizing ps qs with
  | nil => exact h
  | cons p points ih =>
      rw [List.reverse_cons, List.append_assoc]
      exact ih (extend_sublist tolerance h p)

/-- The polyline left of a sequence of points picks some of them in order. -/
theorem simplified_sublist (tolerance : α) (points : List (Point α)) :
    (simplified tolerance points).Sublist points := by
  have h := (foldl_extend_sublist tolerance points (List.Sublist.refl [])).reverse
  rw [List.append_nil, List.reverse_reverse] at h
  exact h

/-- The polyline left of a sequence of points ends where the sequence does. -/
theorem simplified_append_singleton (tolerance : α) (points : List (Point α)) (p : Point α) :
    (simplified tolerance (points ++ [p])).getLast? = some p := by
  rw [simplified, List.foldl_append, List.foldl_cons, List.foldl_nil, List.getLast?_reverse]
  rcases extend_eq tolerance (points.foldl (extend tolerance) []) p with heq | heq <;> rw [heq] <;> rfl

end RankingEval.Curve
