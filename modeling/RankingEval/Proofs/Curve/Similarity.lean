/-
# Simplification under similarities

Whether a point continues a segment depends on two steps only, and of these on their scalar products only: the
square of the cross product is what the square of the scalar product leaves of the product of the squared lengths.
A map of the plane that multiplies all scalar products of steps by one positive number therefore changes no
decision, and simplification commutes with it, whatever the tolerance. Scaling, moving, exchanging the axes and
turning an axis round are such maps.
-/

import Mathlib
import RankingEval.Proofs.Curve.Buffer

namespace RankingEval.Curve

open RankingEval.Number

/-! ## Scalar products of steps -/

/-- The scalar product of the step from `a` to `b` and the step from `c` to `d`. -/
def stepProduct (a b c d : Point ℚ) : ℚ := (b.x - a.x) * (d.x - c.x) + (b.y - a.y) * (d.y - c.y)

/-- A step is continued forward as the scalar products of both steps tell. -/
theorem continuesForward_iff {tolerance : ℚ} {a b c : Point ℚ} :
    continuesForward tolerance a b c = true ↔
      stepProduct a b a b * stepProduct b c b c - stepProduct a b b c ^ 2 ≤
          tolerance ^ 2 * (stepProduct a b a b * stepProduct b c b c) ∧
        0 ≤ stepProduct a b b c := by
  have hcross : stepProduct a b a b * stepProduct b c b c - stepProduct a b b c ^ 2 =
      ((b.x - a.x) * (c.y - b.y) - (b.y - a.y) * (c.x - b.x)) *
        ((b.x - a.x) * (c.y - b.y) - (b.y - a.y) * (c.x - b.x)) := by
    simp only [stepProduct]
    ring
  rw [continuesForward, Bool.and_eq_true, hcross, sq tolerance]
  exact and_congr decide_eq_true_iff decide_eq_true_iff

/-! ## Similarities -/

/-- A map of the plane is a similarity: it multiplies the scalar products of all steps by one positive number. -/
def IsSimilarity (f : Point ℚ → Point ℚ) : Prop :=
  ∃ k > 0, ∀ a b c d, stepProduct (f a) (f b) (f c) (f d) = k * stepProduct a b c d

variable {f : Point ℚ → Point ℚ}

theorem IsSimilarity.continuesForward_eq (h : IsSimilarity f) (tolerance : ℚ) (a b c : Point ℚ) :
    continuesForward tolerance (f a) (f b) (f c) = continuesForward tolerance a b c := by
  obtain ⟨k, hk, hproduct⟩ := h
  rw [Bool.eq_iff_iff, continuesForward_iff, continuesForward_iff]
  simp only [hproduct]
  refine and_congr ?_ (mul_nonneg_iff_of_pos_left hk)
  -- both sides of the bound grow by the square of the factor
  have hgrow (u v w : ℚ) : (k * u * (k * v) - (k * w) ^ 2 ≤ tolerance ^ 2 * (k * u * (k * v))) ↔
      k ^ 2 * (u * v - w ^ 2) ≤ k ^ 2 * (tolerance ^ 2 * (u * v)) := by
    rw [show k * u * (k * v) - (k * w) ^ 2 = k ^ 2 * (u * v - w ^ 2) by ring,
      show tolerance ^ 2 * (k * u * (k * v)) = k ^ 2 * (tolerance ^ 2 * (u * v)) by ring]
  rw [hgrow, mul_le_mul_iff_right₀ (pow_pos hk 2)]

/-- Extending commutes with a similarity. -/
theorem IsSimilarity.extend_map (h : IsSimilarity f) (tolerance : ℚ) (ps : List (Point ℚ)) (p : Point ℚ) :
    extend tolerance (ps.map f) (f p) = (extend tolerance ps p).map f := by
  rcases ps with _ | ⟨b, _ | ⟨a, rest⟩⟩
  · rfl
  · rfl
  · simp only [List.map_cons, extend, h.continuesForward_eq]
    split_ifs <;> rfl

/-- Simplification commutes with a similarity. -/
theorem IsSimilarity.simplified_map (h : IsSimilarity f) (tolerance : ℚ) (points : List (Point ℚ)) :
    simplified tolerance (points.map f) = (simplified tolerance points).map f := by
  have hfold : (points.map f).foldl (extend tolerance) [] =
      (points.foldl (extend tolerance) []).map f := by
    rw [List.foldl_map]
    exact @List.foldl_hom _ _ _ (List.map f) (extend tolerance) (fun ps p => extend tolerance ps (f p))
      points [] fun ps p => h.extend_map tolerance ps p
  rw [simplified, hfold, simplified, List.map_reverse]

/-! ## Scales, places and axes -/

/-- The point on another scale, and moved from there. -/
def Point.placed (scale right up : ℚ) (p : Point ℚ) : Point ℚ := ⟨scale * p.x + right, scale * p.y + up⟩

/-- The point with its coordinates exchanged. -/
def Point.transposed (p : Point ℚ) : Point ℚ := ⟨p.y, p.x⟩

/-- The point on the other side of the vertical axis. -/
def Point.leftRight (p : Point ℚ) : Point ℚ := ⟨-p.x, p.y⟩

/-- The point on the other side of the horizontal axis. -/
def Point.upsideDown (p : Point ℚ) : Point ℚ := ⟨p.x, -p.y⟩

theorem isSimilarity_placed {scale : ℚ} (h : 0 < scale) (right up : ℚ) :
    IsSimilarity (Point.placed scale right up) := by
  refine ⟨scale ^ 2, pow_pos h 2, fun a b c d => ?_⟩
  simp only [stepProduct, Point.placed]
  ring

theorem isSimilarity_transposed : IsSimilarity Point.transposed := by
  refine ⟨1, one_pos, fun a b c d => ?_⟩
  simp only [stepProduct, Point.transposed]
  ring

theorem isSimilarity_leftRight : IsSimilarity Point.leftRight := by
  refine ⟨1, one_pos, fun a b c d => ?_⟩
  simp only [stepProduct, Point.leftRight]
  ring

theorem isSimilarity_upsideDown : IsSimilarity Point.upsideDown := by
  refine ⟨1, one_pos, fun a b c d => ?_⟩
  simp only [stepProduct, Point.upsideDown]
  ring

/-- Whatever the tolerance, a new curve that is extended by points on another scale and in another place stores
the points that it stores for the original ones, on that scale and in that place. The same holds when the
coordinates are exchanged, and when either of them is negated. -/
theorem extendTo_similar (labelX labelY : String) (size : ℤ) (tolerance : ℚ) (points : List (Point ℚ)) :
    let left (points : List (Point ℚ)) : List (Point ℚ) :=
      (points.foldl (Curve.extendTo tolerance) (.ofSize labelX labelY size)).points
    (∀ scale right up, 0 < scale →
        left (points.map (.placed scale right up)) = (left points).map (.placed scale right up)) ∧
      left (points.map .transposed) = (left points).map .transposed ∧
      left (points.map .leftRight) = (left points).map .leftRight ∧
      left (points.map .upsideDown) = (left points).map .upsideDown := by
  simp only [Curve.points_foldl_extendTo]
  refine ⟨?_, ?_, ?_, ?_⟩
  · intro scale right up hscale
    exact (isSimilarity_placed hscale right up).simplified_map tolerance points
  · exact isSimilarity_transposed.simplified_map tolerance points
  · exact isSimilarity_leftRight.simplified_map tolerance points
  · exact isSimilarity_upsideDown.simplified_map tolerance points

/-- A corner of the unit square stays a corner when the square is made small and moved. -/
theorem extendTo_similar_small :
    let left (points : List (Point ℚ)) : List (Point ℚ) :=
      (points.foldl (Curve.extendTo exactStraightness) (.ofSize "X" "Y" 10)).points
    0 < (1 / 10 ^ 7 : ℚ) ∧
      left ([⟨0, 0⟩, ⟨1, 1⟩, ⟨2, 7⟩].map (.placed (1 / 10 ^ 7) 5 3)) =
        [⟨0, 0⟩, ⟨1, 1⟩, ⟨2, 7⟩].map (.placed (1 / 10 ^ 7) 5 3) := by
  intro left
  have hscale : 0 < (1 / 10 ^ 7 : ℚ) := by norm_num
  have hleft : left [⟨0, 0⟩, ⟨1, 1⟩, ⟨2, 7⟩] = [⟨0, 0⟩, ⟨1, 1⟩, ⟨2, 7⟩] := by decide +kernel
  obtain ⟨hplaced, -⟩ := extendTo_similar "X" "Y" 10 exactStraightness [⟨0, 0⟩, ⟨1, 1⟩, ⟨2, 7⟩]
  exact ⟨hscale, (hplaced _ 5 3 hscale).trans (congrArg _ hleft)⟩

end RankingEval.Curve
