/-
# The exact area of a ranking without scores

In rationals and without tolerance, the area under the curve of a ranking that contains all positives is a
sum over the positives: the curve advances where a positive is found, by the width of one positive, and
the strip it adds there lies between the precisions before and after. In front of the first item there is
no point, so that a positive at the very front adds no strip. All positives are found in particular when
the identifiers of a ranking are different and every positive is among them.
-/

import Mathlib
import RankingEval.Proofs.Curve.Buffer
import RankingEval.Proofs.Curve.ExactArea
import RankingEval.Proofs.Ranking.WellFormed

namespace RankingEval.Ranking

open RankingEval.Number RankingEval.Curve

/-! ## Gains -/

/-- What a positive that is found next adds, after `found` positives among `seen` items: the sum of the
precisions before and after it, or nothing at the very front. -/
def gain (found seen : ℕ) : ℚ :=
  if seen = 0 then 0 else (found : ℚ) / seen + ((found : ℚ) + 1) / (seen + 1)

/-- What the positives among the remaining items add, where `true` stands for a positive. -/
def gains : ℕ → ℕ → List Bool → ℚ
  | _, _, [] => 0
  | found, seen, true :: rest => gain found seen + gains (found + 1) (seen + 1) rest
  | found, seen, false :: rest => gains found (seen + 1) rest

theorem gains_append (found seen : ℕ) (front back : List Bool) :
    gains found seen (front ++ back) =
      gains found seen front + gains (found + front.count true) (seen + front.length) back := by
  induction front generalizing found seen with
  | nil => simp [gains]
  | cons flag front ih =>
      have hseen : seen + 1 + front.length = seen + (front.length + 1) := by omega
      cases flag with
      | false =>
          rw [List.cons_append, gains, gains, ih, List.count_cons_of_ne Bool.false_ne_true,
            List.length_cons, hseen]
      | true =>
          have hfound : found + 1 + front.count true = found + (front.count true + 1) := by omega
          rw [List.cons_append, gains, gains, ih, List.count_cons_self, List.length_cons, hseen, hfound]
          exact (add_assoc _ _ _).symm

/-! ## Points of all prefixes -/

/-- The points of all prefixes of a ranking. -/
def prefixPoints (positives : ℕ) (items : List Item) : List (Point ℚ) :=
  (List.range items.length).map fun t => pointAt positives (positivesWithin items (t + 1)) (t + 1)

theorem prefixPoints_append (positives : ℕ) (items : List Item) (item : Item) :
    prefixPoints positives (items ++ [item]) = prefixPoints positives items ++
      [pointAt positives ((items ++ [item]).countP (·.positive)) (items.length + 1)] := by
  have hlength : (items ++ [item]).length = items.length + 1 := by simp
  have hwithin := positivesWithin_length (items ++ [item])
  rw [hlength] at hwithin
  rw [prefixPoints, hlength, List.range_succ, List.map_append, List.map_singleton, hwithin]
  congr 1
  apply List.map_congr_left
  intro t ht
  rw [positivesWithin_append items item (List.mem_range.mp ht)]

/-- A ranking that holds positives is not empty. -/
theorem ne_nil_of_countP_eq {positives : ℕ} {items : List Item} (hpositives : 0 < positives)
    (hall : items.countP (·.positive) = positives) : items ≠ [] := by
  rintro rfl
  exact hpositives.ne hall

/-- Where no neighbours tie and all positives are ranked, the raw points are those of all prefixes. -/
theorem rawPoints_eq_prefixPoints {positives : ℕ} {items : List Item} (hpositives : 0 < positives)
    (hall : items.countP (·.positive) = positives)
    (untied : items.IsChain fun last next => tied next.score last.score = false) :
    (rawPoints positives items : List (Point ℚ)) = prefixPoints positives items := by
  have hitems := ne_nil_of_countP_eq hpositives hall
  obtain ⟨n, hn⟩ : ∃ n, items.length = n + 1 :=
    Nat.exists_eq_succ_of_ne_zero (List.length_pos_of_ne_nil hitems).ne'
  have hends : blockEnds items = (List.range n).map (· + 1) := by
    rw [blockEnds_of_untied untied, hn, List.range_succ_eq_map, List.filter_cons_of_neg (by simp)]
    apply List.filter_eq_self.mpr
    simp
  have hlast : (⟨1, Coordinate.quotient (positivesWithin items items.length) items.length⟩ : Point ℚ) =
      pointAt positives (positivesWithin items (n + 1)) (n + 1) := by
    rw [← hn, pointAt, positivesWithin_length, hall, LawfulCoordinate.quotient_self hpositives]
  rw [rawPoints, hlast, hends, prefixPoints, hn, List.range_succ, List.map_append, List.map_map]
  rfl

/-- The strip at a positive is its gain over twice the number of positives. -/
theorem strip_found (positives found : ℕ) {seen : ℕ} (hseen : seen ≠ 0) :
    strip (pointAt positives found seen : Point ℚ) (pointAt positives (found + 1) (seen + 1)) =
      gain found seen / (2 * positives) := by
  rw [gain, if_neg hseen]
  change (((found + 1 : ℕ) : ℚ) / positives - (found : ℚ) / positives) *
    (((found + 1 : ℕ) : ℚ) / (seen + 1 : ℕ) + (found : ℚ) / seen) / 2 = _
  rw [Nat.cast_add_one, Nat.cast_add_one]
  ring

/-- The strip at another item is empty. -/
theorem strip_missed (positives found seen seen' : ℕ) :
    strip (pointAt positives found seen : Point ℚ) (pointAt positives found seen') = 0 := by
  rw [strip]
  change ((found : ℚ) / positives - (found : ℚ) / positives) * _ / _ = 0
  rw [sub_self, zero_mul, zero_div]

/-- One more item adds one strip. -/
theorem sum_strips_prefixPoints_append (positives : ℕ) {items : List Item} (hitems : items ≠ [])
    (item : Item) :
    (strips (prefixPoints positives (items ++ [item]))).sum =
      (strips (prefixPoints positives items)).sum +
        strip (pointAt positives (items.countP (·.positive)) items.length)
          (pointAt positives ((items ++ [item]).countP (·.positive)) (items.length + 1)) := by
  rcases List.eq_nil_or_concat' items with rfl | ⟨front, last, rfl⟩
  · exact absurd rfl hitems
  · have hlength : (front ++ [last]).length = front.length + 1 := by simp
    rw [prefixPoints_append, prefixPoints_append, List.append_assoc, hlength]
    change (strips (_ ++ [_, _])).sum = _
    rw [strips_append_pair, List.sum_append, List.sum_singleton]

/-- The strips between the points of all prefixes add up to the gains. -/
theorem sum_strips_prefixPoints (positives : ℕ) (items : List Item) :
    (strips (prefixPoints positives items)).sum =
      gains 0 0 (items.map (·.positive)) / (2 * positives) := by
  induction items using List.reverseRecOn with
  | nil => simp [prefixPoints, strips, gains]
  | append_singleton items item ih =>
      obtain ⟨positive, score⟩ := item
      by_cases hitems : items = []
      · subst hitems
        cases positive <;> simp [prefixPoints, strips, gains, gain]
      · have hseen : items.length ≠ 0 := (List.length_pos_of_ne_nil hitems).ne'
        have hcount : (items.map (·.positive)).count true = items.countP (·.positive) := by
          rw [List.count, List.countP_map]
          apply List.countP_congr
          simp
        rw [sum_strips_prefixPoints_append positives hitems, ih, List.map_append, gains_append,
          add_div, hcount, Nat.zero_add, Nat.zero_add, List.length_map, List.countP_append]
        congr 1
        cases positive with
        | false =>
            rw [List.countP_singleton, if_neg Bool.false_ne_true, Nat.add_zero, strip_missed]
            simp [gains]
        | true =>
            rw [List.countP_singleton, if_pos rfl, strip_found positives _ hseen]
            simp [gains]

/-! ## Areas -/

/-- The exact area under the curve of a ranking is made up of the gains of its positives, if these are
all positives and no neighbours tie. -/
theorem area_blockCurve {positives : ℕ} {items : List Item} (hpositives : 0 < positives)
    (hall : items.countP (·.positive) = positives)
    (untied : items.IsChain fun last next => tied next.score last.score = false) :
    (blockCurve (0 : ℚ) positives items).curve.area =
      .ok (gains 0 0 (items.map (·.positive)) / (2 * positives)) := by
  have hitems := ne_nil_of_countP_eq hpositives hall
  have hforward : RunsForward (rawPoints positives items : List (Point ℚ)) :=
    runsForward_rawPoints hpositives hall.le hitems
  have hpoints : (blockCurve (0 : ℚ) positives items).curve.points =
      simplified 0 (rawPoints positives items) :=
    points_blockCurve 0 positives items
  rw [Curve.area, hpoints, hforward.area?_simplified, rawPoints_eq_prefixPoints hpositives hall untied,
    sum_strips_prefixPoints]

/-- The exact area under the curve of a ranking without scores. -/
def exactArea (expected : Datum) (positives : Positives) (ids : List Identity) : Except Failure ℚ := do
  let (curve, _) ← evaluateWithin 0 expected positives ids none
  curve.readArea.value

/-- A ranking finds all positives when its identifiers can be looked up and as many of them are positive
as there are positives, of which there is at least one. -/
structure FindsAll (positives : Positives) (ids : List Identity) : Prop where
  /-- There are positives. -/
  count_ne_zero : positives.count ≠ 0
  /-- Every identifier can be looked up. -/
  held : ∀ id ∈ ids, ∃ held, positives.holds id = .ok held
  /-- All positives are found. -/
  count_has : (ids.map positives.has).count true = positives.count

/-- The exact area of a ranking that finds all positives is made up of their gains. -/
theorem FindsAll.exactArea_eq {positives : Positives} {ids : List Identity}
    (h : FindsAll positives ids) (expected : Datum) :
    exactArea expected positives ids =
      .ok (gains 0 0 (ids.map positives.has) / (2 * positives.count)) := by
  have hpositives : 0 < positives.count := Nat.pos_of_ne_zero h.count_ne_zero
  have hall : (ids.map fun id => (⟨positives.has id, none⟩ : Item)).countP (·.positive) =
      positives.count := by
    rw [← h.count_has, List.count, List.countP_map, List.countP_map]
    apply List.countP_congr
    simp
  have hids : ids ≠ [] := by
    simpa using ne_nil_of_countP_eq hpositives hall
  have harea := readArea_blockCurve (area_blockCurve hpositives hall (untied_of_unscored (by simp)))
  rw [List.map_map] at harea
  rw [exactArea, evaluateWithin_of_looked 0 expected (looked_unscored h.held),
    if_neg h.count_ne_zero, if_neg hids]
  exact harea

/-- A ranking of different identifiers covers a set of positives when every one of them is ranked. -/
structure Covers (keys : List Key) (ids : List Identity) : Prop where
  /-- There are positives. -/
  keys_ne_nil : keys ≠ []
  /-- They are a set. -/
  keys_nodup : keys.Nodup
  /-- No two identifiers are equal. -/
  different : AllDifferent ids
  /-- Every identifier can be looked up. -/
  held : ∀ id ∈ ids, ∃ held, (Positives.set keys 0).holds id = .ok held
  /-- Every positive is ranked. -/
  ranked : ∀ k ∈ keys, .keyed k ∈ ids

variable {keys : List Key} {ids : List Identity}

/-- Rearranging a ranking keeps the positives covered. -/
theorem Covers.of_perm {others : List Identity} (h : Covers keys ids) (hperm : ids.Perm others) :
    Covers keys others where
  keys_ne_nil := h.keys_ne_nil
  keys_nodup := h.keys_nodup
  different := h.different.of_perm hperm
  held id hid := h.held id (hperm.mem_iff.mpr hid)
  ranked k hk := hperm.mem_iff.mp (h.ranked k hk)

/-- A ranking that covers the positives finds them all. -/
theorem Covers.countP_eq (h : Covers keys ids) {items : List Item}
    (looked : ids.mapM (Item.of (.set keys 0) none) = .ok items) :
    items.countP (·.positive) = keys.length := by
  rw [countP_positive looked, List.countP_eq_length_filter]
  apply List.Perm.length_eq
  apply (List.perm_ext_iff_of_nodup (List.Nodup.filter _ h.different) h.keys_nodup).mpr
  intro k
  simp only [List.mem_filter, List.contains_iff_mem, and_iff_right_iff_imp, List.mem_filterMap]
  intro hk
  exact ⟨.keyed k, h.ranked k hk, rfl⟩

/-- As many identifiers are found among the positives as there are positives. -/
theorem Covers.count_has (h : Covers keys ids) :
    (ids.map (Positives.set keys 0).has).count true = keys.length := by
  rw [← h.countP_eq (looked_unscored h.held), List.count, List.countP_map, List.countP_map]
  apply List.countP_congr
  simp

/-- A ranking that covers a set of positives finds them all. -/
theorem Covers.findsAll (h : Covers keys ids) : FindsAll (.set keys 0) ids where
  count_ne_zero := (List.length_pos_of_ne_nil h.keys_ne_nil).ne'
  held := h.held
  count_has := h.count_has

/-- The exact area of a ranking that covers the positives is made up of their gains. -/
theorem Covers.exactArea_eq (h : Covers keys ids) (expected : Datum) :
    exactArea expected (.set keys 0) ids =
      .ok (gains 0 0 (ids.map (Positives.set keys 0).has) / (2 * keys.length)) :=
  h.findsAll.exactArea_eq expected

end RankingEval.Ranking
