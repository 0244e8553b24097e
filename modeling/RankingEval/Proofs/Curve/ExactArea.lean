/-
# The exact area under a simplified curve

In rationals every point that simplification takes away changes the area by half the cross product of the
two steps that it joined. The area under a simplified curve is therefore known from the raw points and from
these products. Without any tolerance they are all zero, and simplification leaves the area as it was.
-/

import Mathlib
import RankingEval.Proofs.Curve.Forward
import RankingEval.Proofs.Number.BlockedSum

namespace RankingEval.Curve

open RankingEval.Number

/-- The area under a polyline that is listed from its last point backwards. -/
def areaBack : List (Point ℚ) → ℚ
  | b :: a :: rest => areaBack (a :: rest) + strip a b
  | _ => 0

theorem strips_append_pair (ps : List (Point ℚ)) (a b : Point ℚ) :
    strips (ps ++ [a, b]) = strips (ps ++ [a]) ++ [strip a b] := by
  induction ps with
  | nil => rfl
  | cons p ps ih =>
      cases ps with
      | nil => rfl
      | cons q ps => exact congrArg (strip p q :: ·) ih

/-- Listing a polyline backwards does not change the area under it. -/
theorem sum_strips_reverse (ps : List (Point ℚ)) : (strips ps.reverse).sum = areaBack ps := by
  induction ps with
  | nil => rfl
  | cons b ps ih =>
      cases ps with
      | nil => rfl
      | cons a rest =>
          rw [List.reverse_cons] at ih
          rw [areaBack, ← ih, List.reverse_cons, List.reverse_cons, List.append_assoc]
          change (strips (rest.reverse ++ [a, b])).sum = _
          rw [strips_append_pair, List.sum_append, List.sum_singleton]

/-- The cross product of the step from `a` to `b` and the step from `b` to `c`. -/
def turn (a b c : Point ℚ) : ℚ := (b.x - a.x) * (c.y - b.y) - (b.y - a.y) * (c.x - b.x)

/-- The strips on either side of a point differ from the one strip between its neighbours by half the turn
at the point. -/
theorem strip_add_strip (a b c : Point ℚ) : strip a b + strip b c = strip a c - turn a b c / 2 := by
  simp only [strip, turn]
  change (b.x - a.x) * (b.y + a.y) / 2 + (c.x - b.x) * (c.y + b.y) / 2 =
    (c.x - a.x) * (c.y + a.y) / 2 - ((b.x - a.x) * (c.y - b.y) - (b.y - a.y) * (c.x - b.x)) / 2
  ring

/-- The turn that is straightened when a point is added to a polyline that is listed from its last point
backwards; zero where the last point stays. -/
def bend (tolerance : ℚ) : List (Point ℚ) → Point ℚ → ℚ
  | b :: a :: _, c => if continuesForward tolerance a b c then turn a b c else 0
  | _, _ => 0

/-- The turns that are straightened when points are added in turn. -/
def bends (tolerance : ℚ) : List (Point ℚ) → List (Point ℚ) → List ℚ
  | _, [] => []
  | ps, p :: points => bend tolerance ps p :: bends tolerance (extend tolerance ps p) points

/-- A new point comes behind the last one, or it takes the place of the last one and straightens the turn
there. -/
theorem extend_cases (tolerance : ℚ) (ps : List (Point ℚ)) (p : Point ℚ) :
    (extend tolerance ps p = p :: ps ∧ bend tolerance ps p = 0) ∨
      ∃ b a rest, ps = b :: a :: rest ∧ continuesForward tolerance a b p = true ∧
        extend tolerance ps p = p :: a :: rest ∧ bend tolerance ps p = turn a b p := by
  rcases ps with _ | ⟨b, _ | ⟨a, rest⟩⟩
  · exact Or.inl ⟨rfl, rfl⟩
  · exact Or.inl ⟨rfl, rfl⟩
  · rw [extend, bend]
    by_cases hforward : continuesForward tolerance a b p = true
    · rw [if_pos hforward, if_pos hforward]
      exact Or.inr ⟨b, a, rest, rfl, hforward, rfl, rfl⟩
    · rw [if_neg hforward, if_neg hforward]
      exact Or.inl ⟨rfl, rfl⟩

/-- Extending a polyline adds the strip to the new point, and half the turn that is straightened. -/
theorem areaBack_extend (tolerance : ℚ) (ps : List (Point ℚ)) (p : Point ℚ) :
    areaBack (extend tolerance ps p) = areaBack (p :: ps) + bend tolerance ps p / 2 := by
  rcases extend_cases tolerance ps p with ⟨heq, hbend⟩ | ⟨b, a, rest, rfl, -, heq, hbend⟩
  · rw [heq, hbend, zero_div, add_zero]
  · have hjoin := strip_add_strip a b p
    rw [heq, hbend, areaBack, areaBack, areaBack]
    linarith

theorem head?_extend (tolerance : ℚ) (ps : List (Point ℚ)) (p : Point ℚ) :
    (extend tolerance ps p).head? = some p := by
  rcases extend_eq tolerance ps p with heq | heq <;> rw [heq] <;> rfl

/-- What a new point adds to the area in front of it is known from the last point. -/
theorem areaBack_cons_congr {ps qs : List (Point ℚ)} (hlast : ps.head? = qs.head?) (p : Point ℚ) :
    areaBack (p :: ps) - areaBack ps = areaBack (p :: qs) - areaBack qs := by
  cases ps with
  | nil =>
      rw [List.head?_eq_none_iff.mp hlast.symm]
  | cons a rest =>
      obtain ⟨others, rfl⟩ := List.head?_eq_some_iff.mp hlast.symm
      rw [areaBack, areaBack]
      ring

/-- What points add to the area in front of them, when some of them are taken away. -/
theorem areaBack_foldl_extend (tolerance : ℚ) (points : List (Point ℚ)) {ps qs : List (Point ℚ)}
    (hlast : ps.head? = qs.head?) :
    areaBack (points.foldl (extend tolerance) ps) - areaBack ps =
      areaBack (points.reverse ++ qs) - areaBack qs + (bends tolerance ps points).sum / 2 := by
  induction points generalizing ps qs with
  | nil => simp [bends]
  | cons p points ih =>
      have hrest := @ih (extend tolerance ps p) (p :: qs) (head?_extend tolerance ps p)
      have hstep := areaBack_extend tolerance ps p
      have hcongr := areaBack_cons_congr hlast p
      rw [List.foldl_cons, List.reverse_cons, List.append_assoc, List.singleton_append, bends,
        List.sum_cons]
      linarith

/-- Simplification changes the area under a polyline by half of the turns that it straightens. -/
theorem sum_strips_simplified (tolerance : ℚ) (points : List (Point ℚ)) :
    (strips (simplified tolerance points)).sum =
      (strips points).sum + (bends tolerance [] points).sum / 2 := by
  have harea := @areaBack_foldl_extend tolerance points [] [] rfl
  have hraw := sum_strips_reverse points.reverse
  rw [List.reverse_reverse] at hraw
  rw [List.append_nil, ← hraw] at harea
  rw [simplified, sum_strips_reverse]
  linarith

/-- A step that continues another without any tolerance is parallel to it. -/
theorem turn_eq_zero {a b c : Point ℚ} (h : continuesForward 0 a b c = true) : turn a b c = 0 := by
  rw [continuesForward, Bool.and_eq_true] at h
  obtain ⟨hturn, -⟩ := h
  have hcross : turn a b c * turn a b c ≤ 0 := by
    have hbound := of_decide_eq_true hturn
    simpa [turn] using hbound
  exact mul_self_eq_zero.mp (le_antisymm hcross (mul_self_nonneg _))

/-- Without tolerance no turn is straightened. -/
theorem eq_zero_of_mem_bends {ps points : List (Point ℚ)} : ∀ w ∈ bends 0 ps points, w = 0 := by
  induction points generalizing ps with
  | nil => simp [bends]
  | cons p points ih =>
      intro w hw
      rw [bends, List.mem_cons] at hw
      rcases hw with rfl | hw
      · rcases extend_cases 0 ps p with ⟨-, hbend⟩ | ⟨b, a, rest, -, hforward, -, hbend⟩
        · exact hbend
        · rw [hbend, turn_eq_zero hforward]
      · exact ih w hw

/-- The area under a polyline that runs from left to right is the sum of its strips. -/
theorem area?_of_ordered {points : List (Point ℚ)} (h : points.Pairwise fun p q => p.x ≤ q.x) :
    area? points = some (strips points).sum := by
  have hwidths : points.Pairwise fun p q => ¬q.x - p.x < 0 :=
    h.imp fun hpq => not_lt.mpr (sub_nonneg.mpr hpq)
  rw [area?_of_not_lt_zero hwidths, blockedSum_eq_sum]
  split_ifs with hshort
  · -- fewer than two points have no strip
    rcases points with _ | ⟨p, _ | ⟨q, rest⟩⟩
    · rfl
    · rfl
    · rw [List.length_cons, List.length_cons] at hshort
      omega
  · rfl

/-- Without tolerance, the area under a simplified curve that runs forward is the sum of the strips of its
raw points. -/
theorem RunsForward.area?_simplified {points : List (Point ℚ)} (h : RunsForward points) :
    area? (simplified 0 points) = some (strips points).sum := by
  rw [area?_of_ordered (h.ordered.sublist (simplified_sublist 0 points)), sum_strips_simplified,
    List.sum_eq_zero eq_zero_of_mem_bends, zero_div, add_zero]

end RankingEval.Curve
