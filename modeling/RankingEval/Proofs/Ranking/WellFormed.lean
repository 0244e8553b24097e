/-
# Curves of rankings are well formed

Recall and precision of a prefix are parts of a whole, and recall grows with the prefix. Therefore the
curve of a ranking of different identifiers runs forward through the unit square, and it ends at full
recall. That no more positives are found than there are rests on the identifiers being different.
-/

import Mathlib
import RankingEval.Proofs.Curve.Buffer
import RankingEval.Proofs.Curve.Forward
import RankingEval.Proofs.Ranking.Evaluation

namespace RankingEval.Ranking

open RankingEval.Number RankingEval.Curve

variable {α : Type} [Coordinate α]

/-! ## Prefixes -/

theorem positivesWithin_mono (items : List Item) {s t : ℕ} (h : s ≤ t) :
    positivesWithin items s ≤ positivesWithin items t := by
  rw [positivesWithin, positivesWithin]
  exact (List.take_sublist_take_left h).countP_le

theorem positivesWithin_le (items : List Item) (t : ℕ) : positivesWithin items t ≤ t := by
  rw [positivesWithin]
  exact Nat.le_trans List.countP_le_length (List.length_take_le t items)

theorem positivesWithin_le_countP (items : List Item) (t : ℕ) :
    positivesWithin items t ≤ items.countP (·.positive) := by
  rw [positivesWithin]
  exact (List.take_sublist t items).countP_le

/-- The ends of the blocks are listed in order. -/
theorem pairwise_blockEnds (items : List Item) : (blockEnds items).Pairwise (· < ·) :=
  List.pairwise_lt_range.filter _

/-! ## Points -/

variable [LawfulCoordinate α]

/-- The quotient of a part by a whole lies between zero and one. -/
theorem quotient_mem_unit {k d : ℕ} (hk : k ≤ d) (hd : 0 < d) :
    (0 : α) ≤ Coordinate.quotient k d ∧ Coordinate.quotient k d ≤ (1 : α) := by
  constructor
  · calc (0 : α) = Coordinate.quotient 0 d := (LawfulCoordinate.quotient_zero hd).symm
      _ ≤ Coordinate.quotient k d := LawfulCoordinate.quotient_le_quotient (Nat.zero_le k) hk hd
  · calc (Coordinate.quotient k d : α) ≤ Coordinate.quotient d d :=
          LawfulCoordinate.quotient_le_quotient hk (Nat.le_refl d) hd
      _ = 1 := LawfulCoordinate.quotient_self hd

variable {positives : ℕ} {items : List Item}

/-- The point of a prefix lies in the unit square. -/
theorem inUnitSquare_pointAt {t : ℕ} (hpositives : 0 < positives)
    (hle : items.countP (·.positive) ≤ positives) (ht : 0 < t) :
    InUnitSquare (pointAt positives (positivesWithin items t) t : Point α) := by
  constructor
  · exact quotient_mem_unit (Nat.le_trans (positivesWithin_le_countP items t) hle) hpositives
  · exact quotient_mem_unit (positivesWithin_le items t) ht

/-- The raw points of a ranking run forward, if it holds no more positives than there are. -/
theorem runsForward_rawPoints (hpositives : 0 < positives)
    (hle : items.countP (·.positive) ≤ positives) (hitems : items ≠ []) :
    RunsForward (rawPoints positives items : List (Point α)) := by
  have hlength : 0 < items.length := List.length_pos_of_ne_nil hitems
  have hinner : ∀ p ∈ (innerPoints positives items : List (Point α)), InUnitSquare p := by
    intro p hp
    obtain ⟨t, ht, rfl⟩ := List.mem_map.mp hp
    exact inUnitSquare_pointAt hpositives hle (lt_of_mem_blockEnds ht).1
  constructor
  · rw [rawPoints, List.pairwise_append]
    refine ⟨?_, List.pairwise_singleton _ _, ?_⟩
    · rw [List.pairwise_map]
      apply (pairwise_blockEnds items).imp
      intro s t hst
      have hfound := Nat.le_trans (positivesWithin_le_countP items t) hle
      change (Coordinate.quotient _ _ : α) ≤ Coordinate.quotient _ _
      exact LawfulCoordinate.quotient_le_quotient (positivesWithin_mono items hst.le) hfound hpositives
    · intro p hp q hq
      obtain rfl := List.mem_singleton.mp hq
      exact (hinner p hp).1.2
  · intro p hp
    rw [rawPoints, List.mem_append, List.mem_singleton] at hp
    rcases hp with hp | rfl
    · exact hinner p hp
    · have hone := @quotient_mem_unit α _ _ _ _ (Nat.le_refl positives) hpositives
      rw [LawfulCoordinate.quotient_self hpositives] at hone
      constructor
      · exact hone
      · exact quotient_mem_unit (positivesWithin_le items _) hlength

omit [LawfulCoordinate α] in
/-- The points of the curve of a ranking are what simplification leaves of those of its prefixes. -/
theorem points_blockCurve (tolerance : α) (positives : ℕ) (items : List Item) :
    (blockCurve tolerance positives items).points = simplified tolerance (rawPoints positives items) :=
  RecallCurve.points_foldl_extendTo tolerance _ _

/-- The curve of a ranking runs forward. -/
theorem runsForward_blockCurve (tolerance : α) (hpositives : 0 < positives)
    (hle : items.countP (·.positive) ≤ positives) (hitems : items ≠ []) :
    RunsForward (blockCurve tolerance positives items).points := by
  rw [points_blockCurve]
  exact (runsForward_rawPoints hpositives hle hitems).sublist (simplified_sublist tolerance _)

omit [LawfulCoordinate α] in
/-- The curve of a ranking ends at full recall, with the precision of the whole ranking. -/
theorem getLast?_blockCurve (tolerance : α) (positives : ℕ) (items : List Item) :
    (blockCurve tolerance positives items).points.getLast? =
      some ⟨1, Coordinate.quotient (items.countP (·.positive)) items.length⟩ := by
  rw [points_blockCurve, rawPoints, simplified_append_singleton, positivesWithin_length]

omit [LawfulCoordinate α] in
/-- Reading the area under the curve of a ranking computes it, and keeps it unless it is undefined. -/
theorem reading_blockCurve {tolerance : α} {area : α}
    (h : (blockCurve tolerance positives items).curve.area = .ok area) :
    (blockCurve tolerance positives items).readArea =
      ⟨.ok area,
        { blockCurve tolerance positives items with
          area? := if Coordinate.isUndefined area then none else some area },
        [RecallCurve.areaEntry (blockCurve tolerance positives items).curve.size]⟩ := by
  have hunread : (blockCurve tolerance positives items).area? = none := by
    rw [blockCurve, RecallCurve.area?_foldl_extendTo]
    rfl
  rw [RecallCurve.readArea, hunread, h]

omit [LawfulCoordinate α] in
/-- The area under the curve of a ranking can be read when it can be computed. -/
theorem readArea_blockCurve {tolerance : α} {area : α}
    (h : (blockCurve tolerance positives items).curve.area = .ok area) :
    (blockCurve tolerance positives items).readArea.value = .ok area := by
  rw [reading_blockCurve h]

/-! ## Evaluations -/

/-- The curve of a ranking of different identifiers is well formed. It runs forward through the unit
square, its last point stands at full recall with the precision of the whole ranking, and the area under
it is defined and can be read. -/
theorem evaluateIds_runsForward (expected : Datum) {keys : List Key} {apart : ℕ}
    (hpositives : (Positives.set keys apart).count ≠ 0) {ids : List Identity} (hids : ids ≠ [])
    (different : AllDifferent ids) {scores : Option Scores}
    (hheld : ∀ id ∈ ids, ∃ held, (Positives.set keys apart).holds id = .ok held)
    (hscored : ∀ table ∈ scores, ∀ id ∈ ids, ∃ score, table.get id = .ok score) :
    ∃ items curve journal,
      ids.mapM (Item.of (.set keys apart) scores) = .ok items ∧
      evaluateIds expected (.set keys apart) ids scores = .ok (curve, journal) ∧
      RunsForward curve.points ∧
      curve.points.getLast? = some ⟨1, countQuotient (items.countP (·.positive)) ids.length⟩ ∧
      ∃ area, curve.curve.area = .ok area ∧ curve.readArea.value = .ok area := by
  obtain ⟨items, looked⟩ := exists_looked hheld hscored
  have hlength := length_of_looked looked
  have hitems : items ≠ [] := by
    apply List.ne_nil_of_length_pos
    rw [hlength]
    exact List.length_pos_of_ne_nil hids
  have hforward : RunsForward
      (blockCurve straightness (Positives.set keys apart).count items).points :=
    runsForward_blockCurve straightness (Nat.pos_of_ne_zero hpositives)
      (countP_positive_le looked different) hitems
  have harea := hforward.area_eq
  have hbuilt := evaluateWithin_of_looked straightness expected looked
  rw [if_neg hpositives, if_neg hids] at hbuilt
  refine ⟨items, _, _, looked, hbuilt, hforward, ?_, _, harea, readArea_blockCurve harea⟩
  rw [getLast?_blockCurve, hlength]
  rfl

/-- A ranking that misses one of two positives still ends at full recall. -/
theorem evaluateIds_runsForward_missing :
    ∃ curve journal,
      evaluateIds (.int 2) (.set [.text "a", .text "c"] 0) [.keyed (.text "b"), .keyed (.text "a")]
        (some ⟨[(.text "a", .ok 3), (.text "b", .ok 5)]⟩) = .ok (curve, journal) ∧
      RunsForward curve.points ∧ curve.points.getLast? = some ⟨1, countQuotient 1 2⟩ ∧
      ∃ area, curve.curve.area = .ok area ∧ curve.readArea.value = .ok area := by
  obtain ⟨items, curve, journal, looked, hbuilt, hforward, hlast, harea⟩ :=
    @evaluateIds_runsForward (.int 2) [.text "a", .text "c"] 0 (by decide)
      [.keyed (.text "b"), .keyed (.text "a")] (by simp) (by decide)
      (some ⟨[(.text "a", .ok 3), (.text "b", .ok 5)]⟩) (by
        intro id hid
        simp only [List.mem_cons, List.not_mem_nil, or_false] at hid
        rcases hid with rfl | rfl <;> exact ⟨_, rfl⟩) (by
        intro table htable id hid
        cases htable
        simp only [List.mem_cons, List.not_mem_nil, or_false] at hid
        rcases hid with rfl | rfl <;> exact ⟨_, rfl⟩)
  cases looked
  exact ⟨curve, journal, hbuilt, hforward, hlast, harea⟩

end RankingEval.Ranking
