/-
# What the evaluation of a ranking computes

The curve of a ranking is that of its tie blocks: one point for every prefix at which a block ends, and a
last one at full recall, each added in turn. An evaluation fails when there are no positives or nothing is
ranked, and divides by no count that is zero. Scores matter only where neighbours tie.
-/

import Mathlib
import RankingEval.Proofs.Ranking.Blocks
import RankingEval.Proofs.Ranking.Lookup

namespace RankingEval.Ranking

open RankingEval.Number RankingEval.Curve

variable {α : Type} [Coordinate α] {positives : Positives} {scores : Option Scores}
  {ids : List Identity} {items : List Item}

/-- The entries that a finished evaluation writes: a warning if the number of items is not the expected
one, and the size of the curve. -/
def entries (expected : Datum) (seen points : ℕ) : Journal :=
  (if (Datum.int seen).same expected then [] else [countEntry seen expected]) ++ [builtEntry points seen]

/-- The outcome of an evaluation, once every identifier has been looked up. -/
theorem evaluateWithin_of_looked (tolerance : α) (expected : Datum)
    (looked : ids.mapM (Item.of positives scores) = .ok items) :
    evaluateWithin tolerance expected positives ids scores =
      if positives.count = 0 then .error .noPositives
      else if ids = [] then .error (.emptyRanking positives.count)
      else
        let curve := blockCurve tolerance positives.count items
        .ok (curve, entries expected ids.length curve.curve.size) := by
  rw [evaluateWithin]
  by_cases hcount : positives.count = 0
  · rw [if_pos hcount, if_pos hcount]
    rfl
  · rw [if_neg hcount, if_neg hcount, looked]
    change evaluate tolerance expected positives.count items = _
    have hlength := length_of_looked looked
    have hempty : items.isEmpty = true ↔ ids = [] := by
      rw [List.isEmpty_iff_length_eq_zero, hlength, List.length_eq_zero_iff]
    rw [evaluate, if_neg hcount, hlength, curveOf_eq_blockCurve]
    by_cases hids : ids = []
    · rw [if_pos (hempty.mpr hids), if_pos hids]
    · rw [if_neg fun h => hids (hempty.mp h), if_neg hids]
      rfl

/-- The evaluation of different identifiers that can be looked up builds the curve of their tie blocks, and no
more of them are positive than there are positives. -/
theorem exists_evaluateWithin (tolerance : α) (expected : Datum) {keys : List Key} {apart : ℕ}
    (hpositives : (Positives.set keys apart).count ≠ 0) (hids : ids ≠ []) (different : AllDifferent ids)
    (hheld : ∀ id ∈ ids, ∃ held, (Positives.set keys apart).holds id = .ok held)
    (hscored : ∀ table ∈ scores, ∀ id ∈ ids, ∃ score, table.get id = .ok score) :
    ∃ items, ids.mapM (Item.of (.set keys apart) scores) = .ok items ∧ items ≠ [] ∧
      items.countP (·.positive) ≤ (Positives.set keys apart).count ∧
      evaluateWithin tolerance expected (.set keys apart) ids scores =
        let curve := blockCurve tolerance (Positives.set keys apart).count items
        .ok (curve, entries expected ids.length curve.curve.size) := by
  obtain ⟨items, looked⟩ := exists_looked hheld hscored
  have hbuilt := evaluateWithin_of_looked tolerance expected looked
  rw [if_neg hpositives, if_neg hids] at hbuilt
  refine ⟨items, looked, ?_, countP_positive_le looked different, hbuilt⟩
  apply List.ne_nil_of_length_pos
  rw [length_of_looked looked]
  exact List.length_pos_of_ne_nil hids

/-- Removing the scores of items no two neighbours of which tie does not change the curve. -/
theorem blockCurve_unscored (tolerance : α) (positives : ℕ)
    (untied : items.IsChain fun last next => tied next.score last.score = false) :
    blockCurve tolerance positives (items.map Item.unscored) = blockCurve tolerance positives items := by
  have huntied : (items.map Item.unscored).IsChain
      fun last next => tied next.score last.score = false := by
    apply untied_of_unscored
    intro item hitem
    obtain ⟨scored, -, rfl⟩ := List.mem_map.mp hitem
    rfl
  have hends : blockEnds (items.map Item.unscored) = blockEnds items := by
    rw [blockEnds_of_untied huntied, blockEnds_of_untied untied, List.length_map]
  have hwithin (t : ℕ) : positivesWithin (items.map Item.unscored) t = positivesWithin items t := by
    rw [positivesWithin, positivesWithin, ← List.map_take, List.countP_map]
    rfl
  rw [blockCurve, blockCurve, rawPoints_congr (List.length_map _) hends fun t _ => hwithin t]

/-- An evaluation builds the curve of the tie blocks of a ranking. With `items` what was looked up for the
identifiers, it fails exactly when there are no positives or nothing is ranked, and otherwise yields the
curve of the prefixes at which a block ends, followed by the whole ranking at full recall. Every prefix
that is divided by holds an item. The expected number of identifiers decides on a warning only, and scores
of which no two neighbours are equal change nothing. -/
theorem evaluateIds_eq_blockCurve (expected : Datum) (positives : Positives) (ids : List Identity)
    (scores : Option Scores) (hheld : ∀ id ∈ ids, ∃ held, positives.holds id = .ok held)
    (hscored : ∀ table ∈ scores, ∀ id ∈ ids, ∃ score, table.get id = .ok score) :
    ∃ items, ids.mapM (Item.of positives scores) = .ok items ∧
      evaluateIds expected positives ids scores =
        (if positives.count = 0 then .error .noPositives
        else if ids = [] then .error (.emptyRanking positives.count)
        else
          let curve := blockCurve straightness positives.count items
          .ok (curve, entries expected ids.length curve.curve.size)) ∧
      (∀ t ∈ blockEnds items, 0 < t ∧ t < ids.length) ∧
      (items.IsChain (fun last next => tied next.score last.score = false) →
        evaluateIds expected positives ids none = evaluateIds expected positives ids scores) := by
  obtain ⟨items, looked⟩ := exists_looked hheld hscored
  have hbuilt := evaluateWithin_of_looked straightness expected looked
  refine ⟨items, looked, hbuilt, fun t ht => ?_, fun untied => ?_⟩
  · rw [← length_of_looked looked]
    exact lt_of_mem_blockEnds ht
  · have hunscored := evaluateWithin_of_looked straightness expected (looked_none_of_looked looked)
    rw [blockCurve_unscored straightness positives.count untied] at hunscored
    exact hunscored.trans hbuilt.symm

/-- The first two of three identifiers tie, so that one block holds them both and the other the third. -/
theorem evaluateIds_two_tied :
    evaluateIds (.int 3) (.set [.text "a", .text "c"] 0)
        [.keyed (.text "a"), .keyed (.text "b"), .keyed (.text "c")]
        (some ⟨[(.text "a", .ok 5), (.text "b", .ok 5), (.text "c", .ok 3)]⟩) =
      let curve := blockCurve straightness 2 [⟨true, some 5⟩, ⟨false, some 5⟩, ⟨true, some 3⟩]
      .ok (curve, entries (.int 3) 3 curve.curve.size) := by
  obtain ⟨items, looked, hbuilt, -, -⟩ := evaluateIds_eq_blockCurve (.int 3)
    (.set [.text "a", .text "c"] 0) [.keyed (.text "a"), .keyed (.text "b"), .keyed (.text "c")]
    (some ⟨[(.text "a", .ok 5), (.text "b", .ok 5), (.text "c", .ok 3)]⟩) (by
      intro id hid
      simp only [List.mem_cons, List.not_mem_nil, or_false] at hid
      rcases hid with rfl | rfl | rfl <;> exact ⟨_, rfl⟩) (by
      intro table htable id hid
      cases htable
      simp only [List.mem_cons, List.not_mem_nil, or_false] at hid
      rcases hid with rfl | rfl | rfl <;> exact ⟨_, rfl⟩)
  cases looked
  exact hbuilt

end RankingEval.Ranking
