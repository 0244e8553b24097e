/-
# Distances obey the laws of a metric

Over exact reals both distances are metrics on the grids of one shape. Each is taken cell by cell: a cell's
difference and the length of the differences behind it make a new length, as the legs of a right triangle or end to
end (`step`). What a step keeps, every distance has: the triangle inequality of the straight way is the inequality
of Cauchy and Schwarz in the plane, once for each cell.

The marks are recognised by equality: the null distance tells which grids are equal, and grids have no distance
exactly if their shapes differ.
-/

import Mathlib
import RankingEval.Proofs.Distance.Shapes
import RankingEval.Proofs.Number.BlockedSum

noncomputable section

namespace RankingEval

open RankingEval.Number

/-- Reals: nothing is rounded. -/
instance : Coordinate ℝ where
  zero := 0
  one := 1
  decidableLE := inferInstance
  decidableLT := inferInstance
  isUndefined _ := false
  quotient n d := n / d
  turnWithin tolerance a b c d :=
    |a * d - b * c| ≤ tolerance * (√(a * a + b * b) * √(c * c + d * d))

namespace Distance

instance : Measured ℝ where
  magnitude x := |x|
  root := Real.sqrt

namespace Metric

/-! ## One more difference -/

/-- The length of one more difference and of the differences behind it. -/
def step : Metric → ℝ → ℝ → ℝ
  | euclidean, d, rest => √(d ^ 2 + rest ^ 2)
  | manhattan, d, rest => |d| + rest

variable (m : Metric) {d e r s t : ℝ}

theorem step_nonneg (hr : 0 ≤ r) : 0 ≤ m.step d r := by
  cases m with
  | euclidean => exact Real.sqrt_nonneg _
  | manhattan => exact add_nonneg (abs_nonneg d) hr

theorem step_neg : m.step (-d) r = m.step d r := by
  cases m with
  | euclidean => rw [step, step, neg_sq]
  | manhattan => rw [step, step, abs_neg]

theorem step_eq_zero_iff (hr : 0 ≤ r) : m.step d r = 0 ↔ d = 0 ∧ r = 0 := by
  cases m with
  | euclidean =>
      rw [step, Real.sqrt_eq_zero (by positivity), add_eq_zero_iff_of_nonneg (sq_nonneg d) (sq_nonneg r),
        sq_eq_zero_iff, sq_eq_zero_iff]
  | manhattan => rw [step, add_eq_zero_iff_of_nonneg (abs_nonneg d) hr, abs_eq_zero]

/-- The inequality of Cauchy and Schwarz in the plane. -/
theorem mul_add_mul_le (d e r s : ℝ) : d * e + r * s ≤ √(d ^ 2 + r ^ 2) * √(e ^ 2 + s ^ 2) := by
  rw [← Real.sqrt_mul (by positivity)]
  apply Real.le_sqrt_of_sq_le
  calc (d * e + r * s) ^ 2 ≤ (d * e + r * s) ^ 2 + (d * s - r * e) ^ 2 := le_add_of_nonneg_right (sq_nonneg _)
    _ = (d ^ 2 + r ^ 2) * (e ^ 2 + s ^ 2) := by ring

/-- A step over two differences is no longer than two steps. -/
theorem step_add_le (ht : 0 ≤ t) (hle : t ≤ r + s) : m.step (d + e) t ≤ m.step d r + m.step e s := by
  cases m with
  | euclidean =>
      refine Real.sqrt_le_iff.mpr ⟨add_nonneg (Real.sqrt_nonneg _) (Real.sqrt_nonneg _), ?_⟩
      have hsquare : t ^ 2 ≤ (r + s) ^ 2 := pow_le_pow_left₀ ht hle 2
      have hd : √(d ^ 2 + r ^ 2) ^ 2 = d ^ 2 + r ^ 2 := Real.sq_sqrt (by positivity)
      have he : √(e ^ 2 + s ^ 2) ^ 2 = e ^ 2 + s ^ 2 := Real.sq_sqrt (by positivity)
      calc (d + e) ^ 2 + t ^ 2 ≤ (d + e) ^ 2 + (r + s) ^ 2 := add_le_add_right hsquare _
        _ = (d ^ 2 + r ^ 2) + (e ^ 2 + s ^ 2) + 2 * (d * e + r * s) := by ring
        _ ≤ (d ^ 2 + r ^ 2) + (e ^ 2 + s ^ 2) + 2 * (√(d ^ 2 + r ^ 2) * √(e ^ 2 + s ^ 2)) := by
          linarith only [mul_add_mul_le d e r s]
        _ = (√(d ^ 2 + r ^ 2) + √(e ^ 2 + s ^ 2)) ^ 2 := by rw [add_sq, hd, he]; ring
  | manhattan =>
      calc |d + e| + t ≤ (|d| + |e|) + (r + s) := add_le_add (abs_add_le d e) hle
        _ = (|d| + r) + (|e| + s) := add_add_add_comm _ _ _ _

/-- The straight way is the shorter one. -/
theorem euclidean_step_le (hr : 0 ≤ r) (hle : r ≤ s) : euclidean.step d r ≤ manhattan.step d s := by
  have hs := hr.trans hle
  refine Real.sqrt_le_iff.mpr ⟨manhattan.step_nonneg hs, ?_⟩
  calc d ^ 2 + r ^ 2 ≤ |d| ^ 2 + s ^ 2 := by
        rw [sq_abs]
        exact add_le_add_right (pow_le_pow_left₀ hr hle 2) _
    _ ≤ |d| ^ 2 + s ^ 2 + 2 * (|d| * s) := le_add_of_nonneg_right (by positivity)
    _ = (|d| + s) ^ 2 := by ring

/-! ## Lengths -/

/-- Reals have one sum only. -/
theorem sum_eq_of_addsUp {items : List ℝ} {total : ℝ} (h : AddsUp ↑items total) : total = items.sum := by
  have hvalue := h.value_eq_sum id rfl neg_zero fun _ _ => rfl
  rwa [List.map_id] at hvalue

theorem length_euclidean (ds : List ℝ) : euclidean.length ds = √(ds.map fun d => d * d).sum := by
  have hsum := sum_eq_of_addsUp (addsUp_leftSum (ds.map fun d => d * d))
  exact congrArg Real.sqrt ((zero_add _).trans hsum)

theorem length_manhattan (ds : List ℝ) : manhattan.length ds = (ds.map abs).sum :=
  sum_eq_of_addsUp (addsUp_blockedSum _)

theorem length_nil : m.length ([] : List ℝ) = 0 := by
  cases m with
  | euclidean => rw [length_euclidean, List.map_nil, List.sum_nil, Real.sqrt_zero]
  | manhattan => rw [length_manhattan, List.map_nil, List.sum_nil]

theorem length_cons (d : ℝ) (ds : List ℝ) : m.length (d :: ds) = m.step d (m.length ds) := by
  cases m with
  | euclidean =>
      have hsum : 0 ≤ (ds.map fun d => d * d).sum :=
        List.sum_nonneg (List.forall_mem_map.mpr fun d _ => mul_self_nonneg d)
      rw [step, length_euclidean, length_euclidean, Real.sq_sqrt hsum, List.map_cons, List.sum_cons, sq]
  | manhattan => rw [step, length_manhattan, length_manhattan, List.map_cons, List.sum_cons]

theorem length_nonneg (ds : List ℝ) : 0 ≤ m.length ds := by
  induction ds with
  | nil => exact m.length_nil.ge
  | cons d ds ih =>
      rw [length_cons]
      exact m.step_nonneg ih

theorem length_euclidean_le (ds : List ℝ) : euclidean.length ds ≤ manhattan.length ds := by
  induction ds with
  | nil => rw [length_nil, length_nil]
  | cons d ds ih =>
      rw [length_cons, length_cons]
      exact euclidean_step_le (euclidean.length_nonneg ds) ih

/-- The length of the differences of two rows of cells. -/
def apart (xs ys : List ℝ) : ℝ := m.length (List.zipWith (· - ·) xs ys)

theorem apart_cons (x y : ℝ) (xs ys : List ℝ) : m.apart (x :: xs) (y :: ys) = m.step (x - y) (m.apart xs ys) :=
  m.length_cons _ _

theorem apart_nonneg (xs ys : List ℝ) : 0 ≤ m.apart xs ys := m.length_nonneg _

theorem apart_comm (xs ys : List ℝ) : m.apart xs ys = m.apart ys xs := by
  induction xs generalizing ys with
  | nil => rw [apart, apart, List.zipWith_nil_left, List.zipWith_nil_right]
  | cons x xs ih =>
      cases ys with
      | nil => rw [apart, apart, List.zipWith_nil_left, List.zipWith_nil_right]
      | cons y ys => rw [apart_cons, apart_cons, ih, ← step_neg, neg_sub]

/-- Rows are nowhere apart exactly if they are equal. -/
theorem apart_eq_zero_iff {xs ys : List ℝ} (h : xs.length = ys.length) : m.apart xs ys = 0 ↔ xs = ys := by
  induction xs generalizing ys with
  | nil =>
      obtain rfl := List.length_eq_zero_iff.mp h.symm
      exact iff_of_true m.length_nil rfl
  | cons x xs ih =>
      cases ys with
      | nil => cases h
      | cons y ys =>
          rw [apart_cons, m.step_eq_zero_iff (m.apart_nonneg xs ys), ih (Nat.succ.inj h), sub_eq_zero, List.cons.injEq]

/-- No way by a third row is shorter. -/
theorem apart_triangle {xs ys zs : List ℝ} (hxy : xs.length = ys.length) (hyz : ys.length = zs.length) :
    m.apart xs zs ≤ m.apart xs ys + m.apart ys zs := by
  induction xs generalizing ys zs with
  | nil =>
      obtain rfl := List.length_eq_zero_iff.mp hxy.symm
      obtain rfl := List.length_eq_zero_iff.mp hyz.symm
      exact le_add_of_nonneg_left (m.apart_nonneg [] [])
  | cons x xs ih =>
      cases ys with
      | nil => cases hxy
      | cons y ys =>
          cases zs with
          | nil => cases hyz
          | cons z zs =>
              rw [apart_cons, apart_cons, apart_cons, ← sub_add_sub_cancel x y z]
              exact m.step_add_le (m.apart_nonneg xs zs) (ih (Nat.succ.inj hxy) (Nat.succ.inj hyz))

end Metric

/-! ## Marks -/

/-- A mark is equal to an exact distance: both are undefined, or the mark stands for the number. -/
def IsMark : Distance Datum → Distance ℝ → Prop
  | .value mark, .value x => ∃ q : ℚ, mark.key? = some (.number q) ∧ x = q
  | .undefined, .undefined => True
  | _, _ => False

/-- Marks are recognised by the equality of data. -/
theorem isMark_iff_equal (mark : Distance Datum) {d : Datum} {q : ℚ} (hd : d.key? = some (.number q)) :
    IsMark mark (.value q) ↔ equal Datum.same (.value d) mark = true := by
  cases mark with
  | value mark =>
      have hnan : Key.number q ≠ .nan := by
        intro h
        cases h
      rw [equal, Datum.same_of_key hd, and_iff_right hnan]
      constructor
      · rintro ⟨p, hmark, hvalue⟩
        rw [hmark, Rat.cast_injective hvalue]
      · intro hmark
        exact ⟨q, hmark, rfl⟩
  | undefined => exact iff_of_false id Bool.false_ne_true

theorem isMark_null_iff (x : ℝ) : IsMark Marks.standard.null (.value x) ↔ x = 0 := by
  have hkey : (Datum.float 0.0).key? = some (.number 0) := by decide +kernel
  constructor
  · rintro ⟨q, hq, rfl⟩
    obtain rfl := Key.number.inj (Option.some.inj (hkey.symm.trans hq))
    exact Rat.cast_zero
  · rintro rfl
    exact ⟨0, hkey, Rat.cast_zero.symm⟩

/-! ## Distances of grids -/

namespace Metric

variable (m : Metric) {a b c : Grid ℝ}

theorem between_of_shape_eq (h : a.shape = b.shape) : m.between a b = .value (m.apart a.cells b.cells) := if_pos h

theorem between_comm (a b : Grid ℝ) : m.between a b = m.between b a := by
  by_cases h : a.shape = b.shape
  · rw [m.between_of_shape_eq h, m.between_of_shape_eq h.symm, apart_comm]
  · rw [m.between_eq_undefined_iff.mpr h, m.between_eq_undefined_iff.mpr (Ne.symm h)]

/-- The null distance is the one of equal grids. -/
theorem isMark_null_between_iff : IsMark Marks.standard.null (m.between a b) ↔ a = b := by
  by_cases h : a.shape = b.shape
  · rw [m.between_of_shape_eq h, isMark_null_iff, m.apart_eq_zero_iff (Grid.length_cells_eq h), Grid.eq_iff,
      and_iff_right h]
  · rw [m.between_eq_undefined_iff.mpr h]
    exact iff_of_false id fun hab => h (congrArg Grid.shape hab)

theorem nonneg_of_between {x : ℝ} (hx : m.between a b = .value x) : 0 ≤ x := by
  by_cases h : a.shape = b.shape
  · rw [m.between_of_shape_eq h] at hx
    cases hx
    exact m.apart_nonneg _ _
  · rw [m.between_eq_undefined_iff.mpr h] at hx
    cases hx

/-- The laws of a metric on the grids of one shape. Grids of different shapes have no distance. -/
structure IsMetric (m : Metric) : Prop where
  undefined_iff (a b : Grid ℝ) : m.between a b = .undefined ↔ a.shape ≠ b.shape
  nonneg (a b : Grid ℝ) (x : ℝ) : m.between a b = .value x → 0 ≤ x
  symm (a b : Grid ℝ) : m.between a b = m.between b a
  null_iff (a b : Grid ℝ) : IsMark Marks.standard.null (m.between a b) ↔ a = b
  triangle (a b c : Grid ℝ) : a.shape = b.shape → b.shape = c.shape →
    ∃ x y z, m.between a c = .value x ∧ m.between a b = .value y ∧ m.between b c = .value z ∧ x ≤ y + z

theorem isMetric (m : Metric) : m.IsMetric where
  undefined_iff _ _ := m.between_eq_undefined_iff
  nonneg _ _ _ := m.nonneg_of_between
  symm := m.between_comm
  null_iff _ _ := m.isMark_null_between_iff
  triangle _ _ _ hab hbc :=
    ⟨_, _, _, m.between_of_shape_eq (hab.trans hbc), m.between_of_shape_eq hab, m.between_of_shape_eq hbc,
      m.apart_triangle (Grid.length_cells_eq hab) (Grid.length_cells_eq hbc)⟩

/-- Both distances are metrics on the grids of one shape, and the straight way is never the longer one. Arrays of
numbers have a distance, which is a number exactly if they have one shape; and marks are recognised as they are where
distances are data. -/
theorem distances_are_metrics :
    (∀ m : Metric, m.IsMetric) ∧
      (∀ a b : Grid ℝ, a.shape = b.shape →
        ∃ x y, euclidean.between a b = .value x ∧ manhattan.between a b = .value y ∧ x ≤ y) ∧
      (∀ (m : Metric) (a b : Datum) (s t : List ℕ), IsArray a s → IsArray b t →
        ∃ d, m.ofData a b = .ok d ∧ (d = .undefined ↔ s ≠ t)) ∧
      ∀ (mark : Distance Datum) (d : Datum) (q : ℚ), d.key? = some (.number q) →
        (IsMark mark (.value q) ↔ equal Datum.same (.value d) mark = true) := by
  refine ⟨isMetric, ?_, fun m a b s t => m.exists_ofData, fun mark d q => isMark_iff_equal mark⟩
  intro a b h
  exact ⟨_, _, euclidean.between_of_shape_eq h, manhattan.between_of_shape_eq h, length_euclidean_le _⟩

end Metric

end Distance

end RankingEval

end
