/-
# The range of the area

The curve of a ranking lies in the unit square and advances by one positive at least, so that in front of its
first positive there is no more than the corner at the origin. The area under it therefore misses the whole
square by half the width of one positive, even for the best of all rankings. Which points simplification takes
away plays no part in this, and neither does the tolerance.
-/

import Mathlib
import RankingEval.Proofs.Curve.ExactArea
import RankingEval.Proofs.Ranking.WellFormed

namespace RankingEval.Curve

open RankingEval.Number

/-! ## Areas in the unit square -/

variable {points : List (Point ℚ)}

theorem strip_nonneg {a b : Point ℚ} (hab : a.x ≤ b.x) (ha : 0 ≤ a.y) (hb : 0 ≤ b.y) : 0 ≤ strip a b := by
  change 0 ≤ (b.x - a.x) * (b.y + a.y) / 2
  have hwidth := sub_nonneg.mpr hab
  positivity

/-- The area under a curve that runs forward is not negative. -/
theorem RunsForward.sum_strips_nonneg (h : RunsForward points) : 0 ≤ (strips points).sum := by
  induction points with
  | nil => exact le_rfl
  | cons a rest ih =>
      cases rest with
      | nil => exact le_rfl
      | cons b rest =>
          have hrest := ih (h.sublist (List.sublist_cons_self a _))
          have ha := h.bounded a List.mem_cons_self
          have hb := h.bounded b (List.mem_cons_of_mem a List.mem_cons_self)
          have hab := List.rel_of_pairwise_cons h.ordered List.mem_cons_self
          rw [strips, List.sum_cons]
          exact add_nonneg (strip_nonneg hab ha.2.1 hb.2.1) hrest

/-- It is no more than the width that is left to the right of its first point. -/
theorem RunsForward.sum_strips_le {a : Point ℚ} {rest : List (Point ℚ)} (h : RunsForward (a :: rest)) :
    (strips (a :: rest)).sum ≤ 1 - a.x := by
  induction rest generalizing a with
  | nil => exact sub_nonneg.mpr (h.bounded a List.mem_cons_self).1.2
  | cons b rest ih =>
      have hrest := ih (h.sublist (List.sublist_cons_self a _))
      have ha := h.bounded a List.mem_cons_self
      have hb := h.bounded b (List.mem_cons_of_mem a List.mem_cons_self)
      have hab := List.rel_of_pairwise_cons h.ordered List.mem_cons_self
      have hstrip : strip a b ≤ b.x - a.x := by
        have hmean : (b.y + a.y) / 2 ≤ 1 := by linarith [ha.2.2, hb.2.2]
        calc strip a b = (b.x - a.x) * ((b.y + a.y) / 2) := mul_div_assoc _ _ _
          _ ≤ b.x - a.x := mul_le_of_le_one_right (sub_nonneg.mpr hab) hmean
      rw [strips, List.sum_cons]
      linarith

/-- Every point stands at the origin or beyond some width. -/
def StartsAfter (width : ℚ) (points : List (Point ℚ)) : Prop := ∀ p ∈ points, p = ⟨0, 0⟩ ∨ width ≤ p.x

/-- A curve that advances from the origin by some width at once misses half of it: the strip there rises from
nothing. -/
theorem RunsForward.sum_strips_le_of_startsAfter {width : ℚ} (hnonneg : 0 ≤ width) (hle : width ≤ 1)
    (h : RunsForward points) (hstart : StartsAfter width points) :
    (strips points).sum ≤ 1 - width / 2 := by
  induction points with
  | nil =>
      change 0 ≤ 1 - width / 2
      linarith
  | cons a rest ih =>
      rcases hstart a List.mem_cons_self with rfl | ha
      · cases rest with
        | nil =>
            change 0 ≤ 1 - width / 2
            linarith
        | cons b rest =>
            have hback := h.sublist (List.sublist_cons_self _ (b :: rest))
            have hb := h.bounded b (List.mem_cons_of_mem _ List.mem_cons_self)
            have hstrip : strip ⟨0, 0⟩ b = b.x * b.y / 2 := by
              change (b.x - 0) * (b.y + 0) / 2 = _
              rw [sub_zero, add_zero]
            rw [strips, List.sum_cons, hstrip]
            rcases hstart b (List.mem_cons_of_mem _ List.mem_cons_self) with rfl | hwidth
            · have hrest := ih hback fun p hp => hstart p (List.mem_cons_of_mem _ hp)
              rwa [zero_mul, zero_div, zero_add]
            · have hheight : b.x * b.y ≤ b.x := mul_le_of_le_one_right hb.1.1 hb.2.2
              linarith [hback.sum_strips_le]
      · linarith [h.sum_strips_le]

end RankingEval.Curve

namespace RankingEval.Ranking

open RankingEval.Number RankingEval.Curve

variable {positives : ℕ} {items : List Item}

/-! ## Areas of rankings -/

/-- Before the first positive recall and precision are zero, and with it recall advances by one positive. -/
theorem startsAfter_rawPoints (hpositives : 0 < positives) :
    StartsAfter (1 / positives) (rawPoints positives items) := by
  have hpos : (0 : ℚ) < positives := by exact_mod_cast hpositives
  intro p hp
  rw [rawPoints, List.mem_append, List.mem_singleton] at hp
  rcases hp with hp | rfl
  · obtain ⟨t, -, rfl⟩ := List.mem_map.mp hp
    rcases Nat.eq_zero_or_pos (positivesWithin items t) with hzero | hfound
    · left
      rw [hzero, pointAt]
      change (⟨(0 : ℕ) / (positives : ℚ), (0 : ℕ) / (t : ℚ)⟩ : Point ℚ) = _
      rw [Nat.cast_zero, zero_div, zero_div]
    · right
      exact div_le_div_of_nonneg_right (by exact_mod_cast hfound) hpos.le
  · right
    exact (div_le_one hpos).mpr (by exact_mod_cast hpositives)

/-- The area under the curve of a ranking lies between nothing and the whole square less half the width of one
positive. So it is at most one, and no ranking reaches one. This holds whatever turn counts as straight. -/
theorem evaluateWithin_area_range (tolerance : ℚ) (expected : Datum) {keys : List Key} {apart : ℕ}
    (hpositives : (Positives.set keys apart).count ≠ 0) {ids : List Identity} (hids : ids ≠ [])
    (different : AllDifferent ids) {scores : Option Scores}
    (hheld : ∀ id ∈ ids, ∃ held, (Positives.set keys apart).holds id = .ok held)
    (hscored : ∀ table ∈ scores, ∀ id ∈ ids, ∃ score, table.get id = .ok score) :
    ∃ curve journal area,
      evaluateWithin tolerance expected (.set keys apart) ids scores = .ok (curve, journal) ∧
      curve.curve.area = .ok area ∧ curve.readArea.value = .ok area ∧
      0 ≤ area ∧ area ≤ 1 - 1 / (2 * (Positives.set keys apart).count) ∧ area < 1 := by
  obtain ⟨items, -, hitems, hle, hbuilt⟩ :=
    exists_evaluateWithin tolerance expected hpositives hids different hheld hscored
  have hpos := Nat.pos_of_ne_zero hpositives
  have hcast : (0 : ℚ) < (Positives.set keys apart).count := by exact_mod_cast hpos
  have hwidth : (1 : ℚ) / (Positives.set keys apart).count ≤ 1 :=
    (div_le_one hcast).mpr (by exact_mod_cast hpos)
  let curve := blockCurve tolerance (Positives.set keys apart).count items
  have hforward : RunsForward curve.points := runsForward_blockCurve tolerance hpos hle hitems
  have hstart : StartsAfter (1 / (Positives.set keys apart).count) curve.points := by
    intro p hp
    rw [points_blockCurve] at hp
    exact startsAfter_rawPoints hpos p ((simplified_sublist tolerance _).subset hp)
  have hordered : curve.curve.points.Pairwise fun p q => p.x ≤ q.x := hforward.ordered
  have harea : curve.curve.area = .ok (strips curve.points).sum := by
    rw [Curve.area, area?_of_ordered hordered]
    rfl
  have hbound := hforward.sum_strips_le_of_startsAfter (by positivity) hwidth hstart
  rw [div_div, mul_comm] at hbound
  have hmissed : (0 : ℚ) < 1 / (2 * (Positives.set keys apart).count) := by positivity
  exact ⟨curve, _, _, hbuilt, harea, readArea_blockCurve harea, hforward.sum_strips_nonneg, hbound,
    hbound.trans_lt (sub_lt_self 1 hmissed)⟩

/-- The two positives stand at the front, and the area is at most three quarters. -/
theorem evaluateWithin_area_range_perfect :
    ∃ curve journal area,
      evaluateWithin exactStraightness (.int 3) (.set [.text "a", .text "b"] 0)
        [.keyed (.text "a"), .keyed (.text "b"), .keyed (.text "c")]
        (some ⟨[(.text "c", .ok 1), (.text "b", .ok 2), (.text "a", .ok 3)]⟩) = .ok (curve, journal) ∧
      curve.readArea.value = .ok area ∧ 0 ≤ area ∧ area ≤ 3 / 4 := by
  obtain ⟨curve, journal, area, hbuilt, -, harea, hnonneg, hle, -⟩ :=
    @evaluateWithin_area_range exactStraightness (.int 3) [.text "a", .text "b"] 0 (by decide)
      [.keyed (.text "a"), .keyed (.text "b"), .keyed (.text "c")] (by simp) (by decide)
      (some ⟨[(.text "c", .ok 1), (.text "b", .ok 2), (.text "a", .ok 3)]⟩) (by
        intro id hid
        simp only [List.mem_cons, List.not_mem_nil, or_false] at hid
        rcases hid with rfl | rfl | rfl <;> exact ⟨_, rfl⟩) (by
        intro table htable id hid
        cases htable
        simp only [List.mem_cons, List.not_mem_nil, or_false] at hid
        rcases hid with rfl | rfl | rfl <;> exact ⟨_, rfl⟩)
  refine ⟨curve, journal, area, hbuilt, harea, hnonneg, hle.trans ?_⟩
  norm_num [Positives.count]

end RankingEval.Ranking
