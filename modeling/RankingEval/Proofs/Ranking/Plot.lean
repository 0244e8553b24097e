/-
# The plot of a ranking

A ranking of different identifiers can be evaluated whatever the positives are, unless nothing is ranked. A
scoring is evaluated with its scores, in the order of these; an order is evaluated as it stands and without
scores. This module says which curve comes of it, so that what is done with many rankings need not ask of
which kind each of them is.
-/

import Mathlib
import RankingEval.Proofs.Ranking.Scorings
import RankingEval.Proofs.Ranking.WellFormed

namespace RankingEval.Ranking

open RankingEval.Number RankingEval.Curve

/-- The identifiers of a ranking. -/
def identities : Ranking → List Identity
  | scoring s => s.rows.map (·.1.identity)
  | order o => o.ids.map (·.identity)

/-- A ranking is identified when its identifiers are all different, and none of them is without a key. -/
structure Identified (r : Ranking) : Prop where
  /-- Every identifier has a key. -/
  keyed : ∀ id ∈ r.identities, ∃ k, id = .keyed k
  /-- No two identifiers are equal. -/
  different : AllDifferent r.identities

/-- The items of a ranking: those of a scoring in the order of their scores, those of an order without
scores. -/
def items (positives : Positives) : Ranking → List Item
  | scoring s => (sortedByScore s.ascending s.rows).map (rowItem positives)
  | order o => o.ids.map fun id => ⟨positives.has id.identity, none⟩

/-- The curve of the tie blocks of a ranking. -/
def plot (positives : Positives) (r : Ranking) : RecallCurve Float :=
  blockCurve straightness positives.count (r.items positives)

/-- The area under the curve of a ranking: the sum of its strips. -/
def plotArea (positives : Positives) (r : Ranking) : Float :=
  if (r.plot positives).points.length < 2 then 0 else blockedSum (strips (r.plot positives).points)

/-- The order that a scoring derives ranks the identifiers of the scoring. -/
theorem identities_order (s : Scoring) :
    (order s.order).identities.Perm (scoring s).identities := by
  rw [identities, identities, Scoring.order, List.map_map]
  exact (sortedByScore_perm s.ascending s.rows).map _

variable {r : Ranking}

/-- Rankings of the same identifiers are identified together. -/
theorem Identified.of_perm {other : Ranking} (h : r.Identified) (hperm : r.identities.Perm other.identities) :
    other.Identified where
  keyed id hid := h.keyed id (hperm.mem_iff.mpr hid)
  different := h.different.of_perm hperm

/-- What is evaluated of an identified ranking: its identifiers in some order, which are looked up as its
items. -/
theorem Identified.looked (h : r.Identified) (positives : Positives) :
    ∃ ids scores, ids.Perm r.identities ∧ ids.mapM (Item.of positives scores) = .ok (r.items positives) ∧
      r.curve positives = evaluateIds (.int r.identities.length) positives ids scores := by
  cases r with
  | scoring s =>
      have hs : s.Identified := by
        constructor
        · intro row hrow
          exact h.keyed _ (List.mem_map_of_mem hrow)
        · exact h.different
      obtain ⟨table, htable, hfound⟩ := hs.table
      refine ⟨s.order.ids.map (·.identity), some table, ?_, hs.looked positives hfound, ?_⟩
      · exact identities_order s
      · rw [curve, htable, identities, List.length_map]
        rfl
  | order o =>
      refine ⟨o.ids.map (·.identity), none, .refl _, ?_, ?_⟩
      · rw [looked_unscored, List.map_map]
        · rfl
        · intro id hid
          obtain ⟨k, rfl⟩ := h.keyed id hid
          exact positives.holds_keyed k
      · rw [curve, identities, List.length_map]

/-- As many items as expected are no reason for a warning. -/
theorem entries_expected (n points : ℕ) : entries (.int n) n points = [builtEntry points n] := by
  have hsame : (Datum.int n).same (.int n) = true := by
    simp [Datum.same, Datum.key?]
  rw [entries, if_pos hsame, List.nil_append]

/-- What comes of an identified ranking: a failure when there are no positives or nothing is ranked, and
otherwise its plot. -/
theorem Identified.curve_eq (h : r.Identified) (positives : Positives) :
    r.curve positives =
      if positives.count = 0 then .error .noPositives
      else if r.identities = [] then .error (.emptyRanking positives.count)
      else .ok (r.plot positives,
        [builtEntry (r.plot positives).curve.size r.identities.length]) := by
  obtain ⟨ids, scores, hperm, hlooked, hcurve⟩ := h.looked positives
  have hids : ids = [] ↔ r.identities = [] := by
    rw [← List.length_eq_zero_iff, hperm.length_eq, List.length_eq_zero_iff]
  have hbuilt := evaluateWithin_of_looked straightness (.int r.identities.length) hlooked
  simp only [hids, hperm.length_eq, entries_expected] at hbuilt
  exact hcurve.trans hbuilt

/-- The area under the plot of an identified ranking can be read. -/
theorem Identified.readArea_plot (h : r.Identified) (hids : r.identities ≠ []) {keys : List Key}
    {apart : ℕ} (hpositives : (Positives.set keys apart).count ≠ 0) :
    ∃ kept, (r.plot (.set keys apart)).readArea =
      ⟨.ok (r.plotArea (.set keys apart)), { r.plot (.set keys apart) with area? := kept },
        [RecallCurve.areaEntry (r.plot (.set keys apart)).curve.size]⟩ := by
  obtain ⟨ids, scores, hperm, hlooked, -⟩ := h.looked (.set keys apart)
  have hitems : r.items (.set keys apart) ≠ [] := by
    apply List.ne_nil_of_length_pos
    rw [length_of_looked hlooked, hperm.length_eq]
    exact List.length_pos_of_ne_nil hids
  have hforward : RunsForward (r.plot (.set keys apart)).points :=
    runsForward_blockCurve straightness (Nat.pos_of_ne_zero hpositives)
      (countP_positive_le hlooked (h.different.of_perm hperm.symm)) hitems
  exact ⟨_, reading_blockCurve hforward.area_eq⟩

end RankingEval.Ranking
