/-
# How many points a curve has

Recall takes few values, since it grows only where a positive is found. Among the points of one recall the
precision falls, so that they lie straight below each other and simplification leaves at most two of them,
whatever it tolerates. The size of a curve is therefore bounded by the number of positives, however long the
ranking is.
-/

import Mathlib
import RankingEval.Proofs.Ranking.WellFormed

namespace RankingEval.Curve

open RankingEval.Number

/-! ## Points below each other -/

/-- A point comes later on a curve that falls where it does not advance: it lies further to the right, or it
lies no higher. -/
def FallsTo (p q : Point ℚ) : Prop := p.x ≤ q.x ∧ (p.x = q.x → q.y ≤ p.y)

/-- A way straight down goes on forward. Its steps are parallel, so that no tolerance is needed. -/
theorem continuesForward_of_falling (tolerance : ℚ) {a b c : Point ℚ} (hab : FallsTo a b) (hbc : FallsTo b c)
    (ha : a.x = c.x) (hb : b.x = c.x) : continuesForward tolerance a b c = true := by
  have hfirst := hab.2 (ha.trans hb.symm)
  have hsecond := hbc.2 hb
  have hcross : (b.x - a.x) * (c.y - b.y) - (b.y - a.y) * (c.x - b.x) = 0 := by
    rw [ha, hb, sub_self, zero_mul, mul_zero, sub_zero]
  rw [continuesForward, Bool.and_eq_true]
  constructor
  · apply decide_eq_true
    rw [hcross, mul_zero]
    exact mul_nonneg (mul_self_nonneg _) (mul_nonneg (add_nonneg (mul_self_nonneg _) (mul_self_nonneg _))
      (add_nonneg (mul_self_nonneg _) (mul_self_nonneg _)))
  · apply decide_eq_true
    rw [ha, hb, sub_self, zero_mul, zero_add]
    exact mul_nonneg_of_nonpos_of_nonpos (sub_nonpos.mpr hfirst) (sub_nonpos.mpr hsecond)

/-- Of points that are listed from the last one backwards, none lies further to the right than the last. -/
theorem count_eq_zero_of_lt {ps : List (Point ℚ)} {b : Point ℚ} {x : ℚ}
    (hfalls : (b :: ps).Pairwise fun q p => FallsTo p q) (hlt : b.x < x) :
    ((b :: ps).map (·.x)).count x = 0 := by
  apply List.count_eq_zero.mpr
  intro hmem
  obtain ⟨p, hp, rfl⟩ := List.mem_map.mp hmem
  rcases List.mem_cons.mp hp with rfl | hp
  · exact lt_irrefl _ hlt
  · exact hlt.not_ge (List.rel_of_pairwise_cons hfalls hp).1

/-- A third point straight below two others takes the place of the second one, so that there are never more
than two. -/
theorem count_extend_le (tolerance : ℚ) {ps : List (Point ℚ)} {p : Point ℚ}
    (hfalls : (p :: ps).Pairwise fun q p => FallsTo p q) (htwo : ∀ x, (ps.map (·.x)).count x ≤ 2) (x : ℚ) :
    ((extend tolerance ps p).map (·.x)).count x ≤ 2 := by
  rcases ps with _ | ⟨b, _ | ⟨a, rest⟩⟩
  · exact List.count_le_length.trans (by simp [extend])
  · exact List.count_le_length.trans (by simp [extend])
  · have hold := htwo x
    have hback := hfalls.of_cons
    have hbp : FallsTo b p := List.rel_of_pairwise_cons hfalls List.mem_cons_self
    have hab : FallsTo a b := List.rel_of_pairwise_cons hback List.mem_cons_self
    rw [extend]
    by_cases hx : p.x = x
    · subst hx
      rcases hbp.1.lt_or_eq with hbefore | hbx
      · -- the new point is the first one so far to the right
        have hnone := count_eq_zero_of_lt hback hbefore
        rw [List.map_cons, List.count_cons_of_ne hbefore.ne] at hnone
        split_ifs
        · rw [List.map_cons, List.count_cons_self, hnone]
          exact Nat.le_succ 1
        · rw [List.map_cons, List.count_cons_self, List.map_cons, List.count_cons_of_ne hbefore.ne, hnone]
          exact Nat.le_succ 1
      · rw [List.map_cons, hbx, List.count_cons_self] at hold
        split_ifs with hforward
        · rwa [List.map_cons, List.count_cons_self]
        · rcases (hbx ▸ hab.1).lt_or_eq with hbefore | hax
          · rw [List.map_cons, List.count_cons_self, List.map_cons, hbx, List.count_cons_self,
              count_eq_zero_of_lt hback.of_cons hbefore]
          · exact absurd (continuesForward_of_falling tolerance hab hbp hax hbx) hforward
    · have hless : ((a :: rest).map (·.x)).count x ≤ 2 :=
        ((List.sublist_cons_self b (a :: rest)).map _).count_le x |>.trans hold
      split_ifs
      · rwa [List.map_cons, List.count_cons_of_ne hx]
      · rwa [List.map_cons, List.count_cons_of_ne hx]

theorem count_foldl_extend_le (tolerance : ℚ) (points : List (Point ℚ)) {ps : List (Point ℚ)}
    (hfalls : (points.reverse ++ ps).Pairwise fun q p => FallsTo p q)
    (htwo : ∀ x, (ps.map (·.x)).count x ≤ 2) (x : ℚ) :
    ((points.foldl (extend tolerance) ps).map (·.x)).count x ≤ 2 := by
  induction points generalizing ps with
  | nil => exact htwo x
  | cons p points ih =>
      rw [List.reverse_cons, List.append_assoc, List.singleton_append] at hfalls
      have hkept := (extend_sublist tolerance (List.Sublist.refl ps) p).append_left points.reverse
      refine ih (hfalls.sublist hkept) fun x => ?_
      exact count_extend_le tolerance (List.pairwise_append.mp hfalls).2.1 htwo x

/-- Of falling points, simplification leaves at most two below each other. -/
theorem count_simplified_le (tolerance : ℚ) {points : List (Point ℚ)} (hfalls : points.Pairwise FallsTo)
    (x : ℚ) : ((simplified tolerance points).map (·.x)).count x ≤ 2 := by
  rw [simplified, List.map_reverse, List.count_reverse]
  apply count_foldl_extend_le
  · rwa [List.append_nil, List.pairwise_reverse]
  · simp

/-- Numbers none of which comes more than twice are at most twice as many as there are to choose from. -/
theorem length_le_of_count_le {xs levels : List ℚ} (hlevels : xs ⊆ levels) (htwo : ∀ x, xs.count x ≤ 2) :
    xs.length ≤ 2 * levels.length := by
  have hdedup : xs.dedup.length ≤ levels.length :=
    (List.subperm_of_subset xs.nodup_dedup fun x hx => hlevels (List.mem_dedup.mp hx)).length_le
  calc xs.length = (xs.dedup.map fun x => xs.count x).sum := (List.sum_map_count_dedup_eq_length xs).symm
    _ ≤ (xs.dedup.map fun x => xs.count x).length • 2 :=
        List.sum_le_card_nsmul _ 2 (List.forall_mem_map.mpr fun x _ => htwo x)
    _ = 2 * xs.dedup.length := by rw [List.length_map, smul_eq_mul, Nat.mul_comm]
    _ ≤ 2 * levels.length := Nat.mul_le_mul_left 2 hdedup

end RankingEval.Curve

namespace RankingEval.Ranking

open RankingEval.Number RankingEval.Curve

variable {positives : ℕ} {items : List Item}

/-! ## Recall and precision -/

/-- Where a longer prefix holds no more positives than a shorter one, its precision is lower. -/
theorem fallsTo_pointAt {found more seen later : ℕ} (hpositives : 0 < positives) (hfound : found ≤ more)
    (hseen : 0 < seen) (hlater : seen ≤ later) :
    FallsTo (pointAt positives found seen) (pointAt positives more later) := by
  have hpos : (0 : ℚ) < positives := by exact_mod_cast hpositives
  constructor
  · exact div_le_div_of_nonneg_right (by exact_mod_cast hfound) hpos.le
  · intro hsame
    obtain rfl : found = more := by exact_mod_cast (div_left_inj' hpos.ne').mp hsame
    exact div_le_div_of_nonneg_left (Nat.cast_nonneg found) (by exact_mod_cast hseen)
      (by exact_mod_cast hlater)

/-- The points of a ranking fall where they do not advance. The last one stands at full recall: if positives
are missing it stands alone there, and otherwise where it belongs. -/
theorem fallsTo_rawPoints (hpositives : 0 < positives) (hle : items.countP (·.positive) ≤ positives) :
    (rawPoints positives items : List (Point ℚ)).Pairwise FallsTo := by
  rw [rawPoints, List.pairwise_append, positivesWithin_length]
  refine ⟨?_, List.pairwise_singleton _ _, ?_⟩
  · rw [List.pairwise_map]
    apply (pairwise_blockEnds items).imp_of_mem
    intro s t hs _ hst
    exact fallsTo_pointAt hpositives (positivesWithin_mono items hst.le) (lt_of_mem_blockEnds hs).1 hst.le
  · intro p hp q hq
    obtain ⟨t, ht, rfl⟩ := List.mem_map.mp hp
    obtain rfl := List.mem_singleton.mp hq
    obtain ⟨hstart, hend⟩ := lt_of_mem_blockEnds ht
    have hwithin := positivesWithin_le_countP items t
    rcases hle.lt_or_eq with hmissing | hall
    · have hshort : (positivesWithin items t : ℚ) / positives < 1 := by
        rw [div_lt_one (by exact_mod_cast hpositives)]
        exact_mod_cast hwithin.trans_lt hmissing
      exact ⟨hshort.le, fun hsame => absurd hsame hshort.ne⟩
    · have hfull : pointAt positives (items.countP (·.positive)) items.length =
          (⟨1, Coordinate.quotient (items.countP (·.positive)) items.length⟩ : Point ℚ) := by
        rw [pointAt, hall, LawfulCoordinate.quotient_self hpositives]
      exact hfull ▸ fallsTo_pointAt hpositives hwithin hstart hend.le

/-- The values that recall can take. -/
def recallLevels (positives : ℕ) : List ℚ := (List.range (positives + 1)).map fun k : ℕ => (k : ℚ) / positives

theorem recall_mem_recallLevels (hpositives : 0 < positives)
    (hle : items.countP (·.positive) ≤ positives) :
    ((rawPoints positives items : List (Point ℚ)).map (·.x)) ⊆ recallLevels positives := by
  have hlevel {k : ℕ} (hk : k ≤ positives) : (k : ℚ) / positives ∈ recallLevels positives :=
    List.mem_map.mpr ⟨k, List.mem_range.mpr (Nat.lt_succ_of_le hk), rfl⟩
  intro x hx
  obtain ⟨p, hp, rfl⟩ := List.mem_map.mp hx
  rw [rawPoints, List.mem_append, List.mem_singleton] at hp
  rcases hp with hp | rfl
  · obtain ⟨t, -, rfl⟩ := List.mem_map.mp hp
    exact hlevel ((positivesWithin_le_countP items t).trans hle)
  · have hone := hlevel le_rfl
    rwa [div_self (by exact_mod_cast hpositives.ne')] at hone

/-- Items without scores are blocks of their own. -/
theorem blockCount_of_unscored (hitems : items ≠ []) (hscores : ∀ item ∈ items, item.score = none) :
    blockCount items = items.length := by
  obtain ⟨n, hn⟩ : ∃ n, items.length = n + 1 :=
    Nat.exists_eq_succ_of_ne_zero (List.length_pos_of_ne_nil hitems).ne'
  rw [blockCount, blockEnds_of_untied (untied_of_unscored hscores), hn, List.range_succ_eq_map,
    List.filter_cons_of_neg (by simp), List.filter_eq_self.mpr (by simp), List.length_map,
    List.length_range]

/-! ## The size of a curve -/

/-- A curve has no more points than its ranking has blocks, and no more than two for each value that recall
can take: at most two of its points share a recall. So the number of positives bounds its size, however many
identifiers are ranked and whatever turn counts as straight. -/
theorem evaluateWithin_size_le (tolerance : ℚ) (expected : Datum) {keys : List Key} {apart : ℕ}
    (hpositives : (Positives.set keys apart).count ≠ 0) {ids : List Identity} (hids : ids ≠ [])
    (different : AllDifferent ids) {scores : Option Scores}
    (hheld : ∀ id ∈ ids, ∃ held, (Positives.set keys apart).holds id = .ok held)
    (hscored : ∀ table ∈ scores, ∀ id ∈ ids, ∃ score, table.get id = .ok score) :
    ∃ items curve journal,
      ids.mapM (Item.of (.set keys apart) scores) = .ok items ∧
      evaluateWithin tolerance expected (.set keys apart) ids scores = .ok (curve, journal) ∧
      curve.curve.size = curve.points.length ∧
      curve.points.length ≤ min (blockCount items) (2 * (Positives.set keys apart).count + 2) ∧
      (∀ level, (curve.points.map (·.x)).count level ≤ 2) ∧
      (scores = none → blockCount items = ids.length) := by
  obtain ⟨items, looked, hitems, hle, hbuilt⟩ :=
    exists_evaluateWithin tolerance expected hpositives hids different hheld hscored
  have hpos := Nat.pos_of_ne_zero hpositives
  have hpoints := points_blockCurve tolerance (Positives.set keys apart).count items
  have hkept := simplified_sublist tolerance (rawPoints (Positives.set keys apart).count items)
  have htwo := count_simplified_le tolerance (fallsTo_rawPoints hpos hle)
  refine ⟨items, _, _, looked, hbuilt, ?_, ?_, ?_, ?_⟩
  · rw [hpoints]
    exact RecallCurve.size_foldl_extendTo tolerance _ _
  · rw [hpoints]
    apply le_min
    · apply hkept.length_le.trans_eq
      rw [rawPoints, List.length_append, List.length_map, List.length_singleton, blockCount]
    · have hlevels := List.Subset.trans (hkept.map (·.x)).subset (recall_mem_recallLevels hpos hle)
      have hbound := length_le_of_count_le hlevels htwo
      rw [List.length_map, recallLevels, List.length_map, List.length_range] at hbound
      exact hbound
  · rw [hpoints]
    exact htwo
  · rintro rfl
    rw [← length_of_looked looked]
    apply blockCount_of_unscored hitems
    intro item hitem
    rw [looked_unscored hheld] at looked
    cases looked
    obtain ⟨id, -, rfl⟩ := List.mem_map.mp hitem
    rfl

/-- Six identifiers are ranked with one positive, the third. -/
theorem evaluateWithin_size_le_six :
    ∃ curve journal,
      evaluateWithin (0 : ℚ) (.int 6) (.set [.text "c"] 0)
        (["a", "b", "c", "d", "e", "f"].map fun name => .keyed (.text name)) none = .ok (curve, journal) ∧
      curve.points.length ≤ 4 ∧ ∀ level, (curve.points.map (·.x)).count level ≤ 2 := by
  obtain ⟨items, curve, journal, -, hbuilt, -, hle, htwo, -⟩ :=
    @evaluateWithin_size_le 0 (.int 6) [.text "c"] 0 (by decide)
      (["a", "b", "c", "d", "e", "f"].map fun name => .keyed (.text name)) (by simp) (by decide) none
      (by
        rw [List.forall_mem_map]
        exact fun name _ => Positives.holds_keyed _ _)
      (by simp)
  exact ⟨curve, journal, hbuilt, hle.trans (min_le_right _ _), htwo⟩

end RankingEval.Ranking
