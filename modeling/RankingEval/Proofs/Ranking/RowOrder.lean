/-
# Scorings do not depend on the order of their rows

A scoring sorts its rows by score, and the sort leaves rows of equal score in the order in which they were
given. The curve of the scoring does not show that order, since rows of equal score tie and a block of
tied items is one step. This needs the sort and the ties to agree on which scores are equal, which they do
because both follow the standings of doubles.
-/

import Mathlib
import RankingEval.Proofs.Ranking.Scorings
import RankingEval.Proofs.Ranking.Sorting

namespace RankingEval.Ranking

open RankingEval.Number RankingEval.Curve

/-- A scoring is complete when its rows have different identifiers, none of them without a key, and every
score is a number. -/
structure Scoring.Complete (s : Scoring) : Prop where
  /-- Every identifier has a key. -/
  keyed : ∀ row ∈ s.rows, ∃ k, row.1.identity = .keyed k
  /-- No two identifiers are equal. -/
  different : AllDifferent (s.rows.map (·.1.identity))
  /-- No score is NaN. -/
  numbers : ∀ row ∈ s.rows, row.2.isNaN = false

/-- Scorings with the same rows in any order are complete together. -/
theorem Scoring.Complete.of_perm {s other : Scoring} (h : s.Complete) (hperm : s.rows.Perm other.rows) :
    other.Complete where
  keyed row hrow := h.keyed row (hperm.mem_iff.mpr hrow)
  different := h.different.of_perm (hperm.map _)
  numbers row hrow := h.numbers row (hperm.mem_iff.mpr hrow)

/-- A complete scoring is identified. -/
theorem Scoring.Complete.identified {s : Scoring} (h : s.Complete) : s.Identified where
  keyed := h.keyed
  different := h.different

/-- The curve of a complete scoring is that of the tie blocks of its sorted rows. -/
theorem Scoring.Complete.curve_eq {s : Scoring} (h : s.Complete) (hrows : s.rows ≠ [])
    {positives : Positives} (hpositives : positives.count ≠ 0) :
    Ranking.curve positives (.scoring s) =
      let curve := blockCurve straightness positives.count
        ((sortedByScore s.ascending s.rows).map (rowItem positives))
      .ok (curve, entries (.int s.rows.length) s.rows.length curve.curve.size) := by
  rw [h.identified.curve_eq, if_neg hpositives, if_neg hrows]

/-- Sorted rows have the same raw points in whatever order they were given. -/
theorem rawPoints_sortedByScore {γ : Type} [LinearOrder γ] {rank : Float → γ} {ascending : Bool}
    (hranks : Ranks ascending rank) {rows others : List (Identifier × Float)} (hperm : rows.Perm others)
    (hnumbers : ∀ row ∈ rows, row.2.isNaN = false) (positives : Positives) (count : ℕ) :
    (rawPoints count ((sortedByScore ascending rows).map (rowItem positives)) : List (Point Float)) =
      rawPoints count ((sortedByScore ascending others).map (rowItem positives)) := by
  have hrows := sortedByScore_perm ascending rows
  have hothers := sortedByScore_perm ascending others
  apply @rawPoints_eq_of_perm γ _ fun item => rank (item.score.getD 0)
  · rw [List.pairwise_map]
    exact sortedByScore_pairwise_of_scored hranks hnumbers
  · rw [List.pairwise_map]
    apply sortedByScore_pairwise_of_scored hranks
    intro row hrow
    exact hnumbers row (hperm.mem_iff.mpr hrow)
  · exact (hrows.trans (hperm.trans hothers.symm)).map _
  · intro a ha b hb
    obtain ⟨row, hrow, rfl⟩ := List.mem_map.mp ha
    obtain ⟨other, hother, rfl⟩ := List.mem_map.mp hb
    have hnumber := hnumbers row (hrows.mem_iff.mp hrow)
    have hnumber' := hnumbers other (hrows.mem_iff.mp hother)
    exact (hranks.beq_iff hnumber' hnumber).trans eq_comm

/-- The curve of a scoring does not depend on the order of its rows. Two scorings with the same rows in
any order, each with different identifiers and without NaN, yield one and the same curve in either
direction of the sort, and with it the same points, area and lines, whatever the positives are. -/
theorem curve_eq_of_perm {s other : Scoring} (hperm : s.rows.Perm other.rows)
    (hascending : s.ascending = other.ascending) (complete : s.Complete) (hrows : s.rows ≠ [])
    {positives : Positives} (hpositives : positives.count ≠ 0) :
    ∃ curve journal, Ranking.curve positives (.scoring s) = .ok (curve, journal) ∧
      Ranking.curve positives (.scoring other) = .ok (curve, journal) := by
  have hrows' : other.rows ≠ [] := fun hnil => hrows (List.perm_nil.mp (hnil ▸ hperm))
  have hraw : (rawPoints positives.count
        ((sortedByScore s.ascending s.rows).map (rowItem positives)) : List (Point Float)) =
      rawPoints positives.count
        ((sortedByScore s.ascending other.rows).map (rowItem positives)) := by
    cases s.ascending with
    | false => exact rawPoints_sortedByScore ranks_reverse_standing hperm complete.numbers _ _
    | true => exact rawPoints_sortedByScore ranks_standing hperm complete.numbers _ _
  refine ⟨_, _, complete.curve_eq hrows hpositives, ?_⟩
  rw [(complete.of_perm hperm).curve_eq hrows' hpositives, ← hascending, ← hperm.length_eq,
    blockCurve, blockCurve, hraw]

/-- Two rows of equal score are exchanged in front of a third one. -/
theorem curve_eq_of_swap :
    let a : Identifier := ⟨.text "a", .keyed (.text "a")⟩
    let b : Identifier := ⟨.text "b", .keyed (.text "b")⟩
    let c : Identifier := ⟨.text "c", .keyed (.text "c")⟩
    ∃ curve journal,
      Ranking.curve (.set [.text "a"] 0) (.scoring ⟨0, "given", [(a, 5), (b, 5), (c, 3)], false⟩) =
        .ok (curve, journal) ∧
      Ranking.curve (.set [.text "a"] 0) (.scoring ⟨1, "swapped", [(b, 5), (a, 5), (c, 3)], false⟩) =
        .ok (curve, journal) := by
  intro a b c
  apply curve_eq_of_perm
  · exact List.Perm.swap _ _ _
  · rfl
  · constructor
    · intro row hrow
      simp only [List.mem_cons, List.not_mem_nil, or_false] at hrow
      rcases hrow with rfl | rfl | rfl <;> exact ⟨_, rfl⟩
    · decide
    · intro row hrow
      simp only [List.mem_cons, List.not_mem_nil, or_false] at hrow
      rcases hrow with rfl | rfl | rfl <;> decide
  · simp
  · decide

end RankingEval.Ranking
