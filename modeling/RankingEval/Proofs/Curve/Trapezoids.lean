/-
# The trapezoidal rule

Over rationals the area under a polyline is known from its pairs of neighbouring points. A polyline that runs
back at one step and forward at another has none. Every other polyline has the sum of its trapezoids, each as
wide as the step is long; this sum is the same from either end, and it can be split at every point. The sign
that goes with the direction, and the blocks in which the strips are summed, are gone in this form.
-/

import Mathlib
import RankingEval.Proofs.Curve.Buffer
import RankingEval.Proofs.Number.BlockedSum

namespace RankingEval.Curve

open RankingEval.Number

variable {points others : List (Point ℚ)}

/-! ## Steps to either side -/

/-- Some step leads to the left. -/
def StepsBack (points : List (Point ℚ)) : Prop := ∃ p q, [p, q] <:+: points ∧ q.x < p.x

/-- Some step leads to the right. -/
def StepsForward (points : List (Point ℚ)) : Prop := ∃ p q, [p, q] <:+: points ∧ p.x < q.x

theorem StepsBack.within (h : StepsBack points) (hpart : points <:+: others) : StepsBack others := by
  obtain ⟨p, q, hpair, hback⟩ := h
  exact ⟨p, q, hpair.trans hpart, hback⟩

theorem StepsForward.within (h : StepsForward points) (hpart : points <:+: others) :
    StepsForward others := by
  obtain ⟨p, q, hpair, hforward⟩ := h
  exact ⟨p, q, hpair.trans hpart, hforward⟩

/-- The neighbours in a polyline from its other end. -/
theorem pair_infix_reverse {p q : Point ℚ} : [p, q] <:+: points.reverse ↔ [q, p] <:+: points := by
  rw [← List.reverse_infix, List.reverse_reverse]
  rfl

theorem stepsBack_reverse : StepsBack points.reverse ↔ StepsForward points := by
  simp only [StepsBack, StepsForward, pair_infix_reverse]
  exact exists_comm

theorem stepsForward_reverse : StepsForward points.reverse ↔ StepsBack points := by
  rw [← stepsBack_reverse, List.reverse_reverse]

/-- A polyline that runs from left to right never steps back. -/
theorem not_stepsBack_of_ordered (h : points.Pairwise fun p q => p.x ≤ q.x) : ¬StepsBack points := by
  rintro ⟨p, q, hpair, hback⟩
  have hle := List.pairwise_pair.mp (h.sublist hpair.sublist)
  exact hle.not_gt hback

/-- The widths are those of the steps between neighbours. -/
theorem mem_widths_iff {w : ℚ} : w ∈ widths points ↔ ∃ p q, [p, q] <:+: points ∧ w = q.x - p.x := by
  induction points with
  | nil => simp [widths]
  | cons a rest ih =>
      cases rest with
      | nil => simp [widths, List.infix_cons_iff]
      | cons b rest =>
          rw [widths, List.mem_cons, ih]
          constructor
          · rintro (rfl | ⟨p, q, hpair, rfl⟩)
            · exact ⟨a, b, ⟨[], rest, rfl⟩, rfl⟩
            · exact ⟨p, q, hpair.trans (List.suffix_cons a _).isInfix, rfl⟩
          · rintro ⟨p, q, hpair, rfl⟩
            rcases List.infix_cons_iff.mp hpair with hfront | hback
            · simp only [List.cons_prefix_cons] at hfront
              obtain ⟨rfl, rfl, -⟩ := hfront
              exact .inl rfl
            · exact .inr ⟨p, q, hback, rfl⟩

theorem any_widths_iff : (widths points).any (fun w => decide (w < 0)) = true ↔ StepsBack points := by
  simp only [List.any_eq_true, decide_eq_true_eq, mem_widths_iff, StepsBack]
  constructor
  · rintro ⟨_, ⟨p, q, hpair, rfl⟩, hneg⟩
    exact ⟨p, q, hpair, sub_neg.mp hneg⟩
  · rintro ⟨p, q, hpair, hback⟩
    exact ⟨_, ⟨p, q, hpair, rfl⟩, sub_neg.mpr hback⟩

theorem all_widths_iff : (widths points).all (fun w => decide (w ≤ 0)) = true ↔ ¬StepsForward points := by
  simp only [List.all_eq_true, decide_eq_true_eq, mem_widths_iff, StepsForward]
  constructor
  · rintro hall ⟨p, q, hpair, hforward⟩
    exact (hall _ ⟨p, q, hpair, rfl⟩).not_gt (sub_pos.mpr hforward)
  · rintro hnone _ ⟨p, q, hpair, rfl⟩
    exact sub_nonpos.mpr (not_lt.mp fun hforward => hnone ⟨p, q, hpair, hforward⟩)

/-- A polyline doubles back if it steps to either side. -/
theorem doublesBack_iff : doublesBack points = true ↔ StepsBack points ∧ StepsForward points := by
  rw [doublesBack, Bool.and_eq_true, any_widths_iff, Bool.not_eq_true', ← Bool.not_eq_true, all_widths_iff,
    not_not]

/-! ## Trapezoids -/

/-- The area of the trapezoid below the segment between two points, whichever of them is to the left. -/
def trapezoid (p q : Point ℚ) : ℚ := |q.x - p.x| * (p.y + q.y) / 2

/-- The areas of the trapezoids between neighbouring points. -/
def trapezoids (points : List (Point ℚ)) : List ℚ := List.zipWith trapezoid points points.tail

theorem trapezoid_comm (p q : Point ℚ) : trapezoid p q = trapezoid q p := by
  rw [trapezoid, trapezoid, abs_sub_comm, add_comm p.y]

/-- The trapezoids of a polyline are those of its two parts, which share a point. -/
theorem trapezoids_append (front : List (Point ℚ)) (p : Point ℚ) (back : List (Point ℚ)) :
    trapezoids (front ++ p :: back) = trapezoids (front ++ [p]) ++ trapezoids (p :: back) := by
  induction front with
  | nil => rfl
  | cons a front ih =>
      cases front with
      | nil => rfl
      | cons b front => exact congrArg (trapezoid a b :: ·) ih

theorem trapezoids_reverse (points : List (Point ℚ)) :
    trapezoids points.reverse = (trapezoids points).reverse := by
  induction points with
  | nil => rfl
  | cons p rest ih =>
      cases rest with
      | nil => rfl
      | cons q rest =>
          calc trapezoids (p :: q :: rest).reverse
              = trapezoids (rest.reverse ++ q :: [p]) := by simp
            _ = trapezoids (q :: rest).reverse ++ [trapezoid q p] := by
                rw [trapezoids_append, List.reverse_cons]
                rfl
            _ = (trapezoids (p :: q :: rest)).reverse := by
                rw [ih, trapezoid_comm, ← List.reverse_cons]
                rfl

/-- Where every strip is the same multiple of the trapezoid, so is their sum. -/
theorem sum_strips_eq_mul (sign : ℚ) (h : ∀ p q, [p, q] <:+: points → strip p q = sign * trapezoid p q) :
    (strips points).sum = sign * (trapezoids points).sum := by
  induction points with
  | nil => exact (mul_zero sign).symm
  | cons p rest ih =>
      cases rest with
      | nil => exact (mul_zero sign).symm
      | cons q rest =>
          have hrest := ih fun a b hpair => h a b (hpair.trans (List.suffix_cons p _).isInfix)
          have hfirst := h p q ⟨[], rest, rfl⟩
          change strip p q + (strips (q :: rest)).sum = sign * (trapezoid p q + (trapezoids (q :: rest)).sum)
          rw [hfirst, hrest, mul_add]

/-- The strips are as wide as their steps and as high as the mean of both ends. -/
theorem strips_eq_zipWith (points : List (Point ℚ)) :
    strips points = List.zipWith (fun p q => (q.x - p.x) * (p.y + q.y) / 2) points points.tail := by
  induction points with
  | nil => rfl
  | cons p rest ih =>
      cases rest with
      | nil => rfl
      | cons q rest =>
          rw [strips, ih, strip, add_comm q.y]
          rfl

theorem sum_strips_of_not_stepsBack (h : ¬StepsBack points) :
    (strips points).sum = (trapezoids points).sum := by
  rw [sum_strips_eq_mul 1, one_mul]
  intro p q hpair
  have hle : p.x ≤ q.x := not_lt.mp fun hback => h ⟨p, q, hpair, hback⟩
  rw [one_mul, trapezoid, abs_of_nonneg (sub_nonneg.mpr hle), add_comm p.y]
  rfl

theorem sum_strips_of_not_stepsForward (h : ¬StepsForward points) :
    (strips points).sum = -(trapezoids points).sum := by
  rw [sum_strips_eq_mul (-1), neg_one_mul]
  intro p q hpair
  have hle : q.x ≤ p.x := not_lt.mp fun hforward => h ⟨p, q, hpair, hforward⟩
  rw [trapezoid, abs_of_nonpos (sub_nonpos.mpr hle), add_comm p.y]
  change (q.x - p.x) * (q.y + p.y) / 2 = _
  ring

/-! ## The area -/

/-- Fewer than two points have no step. -/
theorem not_stepsBack_of_short (h : points.length < 2) : ¬StepsBack points := by
  rintro ⟨p, q, hpair, -⟩
  exact h.not_ge hpair.length_le

/-- Fewer than two points have no trapezoid. -/
theorem trapezoids_of_short (h : points.length < 2) : trapezoids points = [] := by
  rw [← List.length_eq_zero_iff, trapezoids, List.length_zipWith, List.length_tail]
  omega

/-- A polyline that steps to one side only has the sum of its trapezoids. -/
theorem area?_of_not_both (h : ¬(StepsBack points ∧ StepsForward points)) :
    area? points = some (trapezoids points).sum := by
  have hkeeps : ¬doublesBack points = true := doublesBack_iff.not.mpr h
  by_cases hshort : points.length < 2
  · rw [area?, if_pos hshort, trapezoids_of_short hshort]
    rfl
  · rw [area?, if_neg hshort, if_neg hkeeps, blockedSum_eq_sum]
    dsimp only
    by_cases hback : StepsBack points
    · rw [if_pos (any_widths_iff.mpr hback),
        sum_strips_of_not_stepsForward fun hforward => h ⟨hback, hforward⟩]
      exact congrArg some (neg_neg _)
    · rw [if_neg (any_widths_iff.not.mpr hback), sum_strips_of_not_stepsBack hback]

/-- A polyline that steps to either side has no area. -/
theorem area?_of_both (h : StepsBack points ∧ StepsForward points) : area? points = none := by
  have hlong : ¬points.length < 2 := fun hshort => not_stepsBack_of_short hshort h.1
  rw [area?, if_neg hlong, if_pos (doublesBack_iff.mpr h)]

theorem area_eq_error_iff {c : Curve ℚ} {failure : Failure} :
    c.area = .error failure ↔ failure = .areaUndefined ∧ StepsBack c.points ∧ StepsForward c.points := by
  rw [Curve.area]
  by_cases h : StepsBack c.points ∧ StepsForward c.points
  · rw [area?_of_both h]
    simp [h, eq_comm]
  · rw [area?_of_not_both h]
    simp [h]

theorem area_eq_ok_iff {c : Curve ℚ} {a : ℚ} :
    c.area = .ok a ↔ ¬(StepsBack c.points ∧ StepsForward c.points) ∧ (trapezoids c.points).sum = a := by
  rw [Curve.area]
  by_cases h : StepsBack c.points ∧ StepsForward c.points
  · rw [area?_of_both h]
    simp [h]
  · rw [area?_of_not_both h]
    simp [h]

/-- A part of a polyline that steps to one side only does so too. -/
theorem not_both_of_part (h : ¬(StepsBack others ∧ StepsForward others)) (hpart : points <:+: others) :
    ¬(StepsBack points ∧ StepsForward points) := by
  rintro ⟨hback, hforward⟩
  exact h ⟨hback.within hpart, hforward.within hpart⟩

/-- A curve that is cut at a point has the areas of both parts. -/
theorem area_cut {c front back : Curve ℚ} {a : ℚ} (h : c.area = .ok a) {k : ℕ} (hk : k < c.points.length)
    (hfront : front.points = c.points.take (k + 1)) (hback : back.points = c.points.drop k) :
    ∃ a₁ a₂, front.area = .ok a₁ ∧ back.area = .ok a₂ ∧ a₁ + a₂ = a := by
  obtain ⟨hone, rfl⟩ := area_eq_ok_iff.mp h
  refine ⟨_, _, area_eq_ok_iff.mpr ⟨?_, rfl⟩, area_eq_ok_iff.mpr ⟨?_, rfl⟩, ?_⟩
  · rw [hfront]
    exact not_both_of_part hone (List.take_prefix _ _).isInfix
  · rw [hback]
    exact not_both_of_part hone (List.drop_suffix _ _).isInfix
  · -- both parts hold the point at which the curve is cut
    calc (trapezoids front.points).sum + (trapezoids back.points).sum
        = (trapezoids (c.points.take k ++ [c.points[k]]) ++
            trapezoids (c.points[k] :: c.points.drop (k + 1))).sum := by
          rw [hfront, hback, List.take_succ_eq_append_getElem hk, List.drop_eq_getElem_cons hk,
            List.sum_append]
      _ = (trapezoids c.points).sum := by
          rw [← trapezoids_append, ← List.drop_eq_getElem_cons hk, List.take_append_drop]

/-- A curve has the same area from its other end. -/
theorem area_reversed {c reversed : Curve ℚ} {a : ℚ} (h : c.area = .ok a)
    (hreversed : reversed.points = c.points.reverse) : reversed.area = .ok a := by
  obtain ⟨hone, rfl⟩ := area_eq_ok_iff.mp h
  rw [area_eq_ok_iff, hreversed, stepsBack_reverse, stepsForward_reverse, trapezoids_reverse,
    List.sum_reverse, and_comm (a := StepsForward c.points)]
  exact ⟨hone, rfl⟩

/-- The area under a curve is that of the trapezoidal rule. Fewer than two points have the area zero; a curve has
none exactly if some step leads to the left and another one to the right. Under a curve that runs from left to
right it is the sum over the steps of their width times the mean of the heights at both ends. Wherever there is an
area, a curve that is cut at one of its points has the areas of both parts, and from its other end the curve has the
same area. -/
theorem area_trapezoidal (c : Curve ℚ) :
    (c.points.length < 2 → c.area = .ok 0) ∧
      (∀ failure, c.area = .error failure ↔
        failure = .areaUndefined ∧ (∃ p q, [p, q] <:+: c.points ∧ q.x < p.x) ∧
          ∃ p q, [p, q] <:+: c.points ∧ p.x < q.x) ∧
      (c.points.Pairwise (fun p q => p.x ≤ q.x) → c.area =
        .ok (List.zipWith (fun p q => (q.x - p.x) * (p.y + q.y) / 2) c.points c.points.tail).sum) ∧
      ∀ a, c.area = .ok a →
        (∀ k < c.points.length, ∀ front back : Curve ℚ, front.points = c.points.take (k + 1) →
          back.points = c.points.drop k →
            ∃ a₁ a₂, front.area = .ok a₁ ∧ back.area = .ok a₂ ∧ a₁ + a₂ = a) ∧
        ∀ reversed : Curve ℚ, reversed.points = c.points.reverse → reversed.area = .ok a := by
  refine ⟨?_, fun _ => area_eq_error_iff, ?_, ?_⟩
  · intro hshort
    rw [area_eq_ok_iff, trapezoids_of_short hshort]
    exact ⟨fun hboth => not_stepsBack_of_short hshort hboth.1, rfl⟩
  · intro hordered
    have hnone := not_stepsBack_of_ordered hordered
    rw [area_eq_ok_iff, ← sum_strips_of_not_stepsBack hnone, strips_eq_zipWith]
    exact ⟨fun hboth => hnone hboth.1, rfl⟩
  · intro a ha
    exact ⟨fun k hk front back => area_cut ha hk, fun reversed => area_reversed ha⟩

/-- A curve of three points, its two parts, and the same points from the other end. -/
theorem area_trapezoidal_three :
    let drawn (points : List (Point ℚ)) : Curve ℚ := points.foldl Curve.addPoint (.ofSize "X" "Y" 10)
    (drawn [⟨0, 0⟩, ⟨1, 1⟩, ⟨3, 1⟩]).area = .ok (5 / 2) ∧
      (∃ a₁ a₂, (drawn [⟨0, 0⟩, ⟨1, 1⟩]).area = .ok a₁ ∧ (drawn [⟨1, 1⟩, ⟨3, 1⟩]).area = .ok a₂ ∧
        a₁ + a₂ = 5 / 2) ∧
      (drawn [⟨3, 1⟩, ⟨1, 1⟩, ⟨0, 0⟩]).area = .ok (5 / 2) := by
  intro drawn
  have hpoints (points : List (Point ℚ)) : (drawn points).points = points :=
    Curve.points_foldl_addPoint "X" "Y" 10 points
  obtain ⟨-, -, hsum, hrest⟩ := area_trapezoidal (drawn [⟨0, 0⟩, ⟨1, 1⟩, ⟨3, 1⟩])
  rw [hpoints] at hsum hrest
  have harea : (drawn [⟨0, 0⟩, ⟨1, 1⟩, ⟨3, 1⟩]).area = .ok (5 / 2) := by
    rw [hsum (by simp)]
    norm_num
  obtain ⟨hcut, hreversed⟩ := hrest _ harea
  exact ⟨harea, hcut 1 (by simp) _ _ (hpoints _) (hpoints _), hreversed _ (hpoints _)⟩

end RankingEval.Curve
