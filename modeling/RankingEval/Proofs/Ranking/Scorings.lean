/-
# Scorings whose identifiers differ

When the identifiers of a scoring are all different and can be looked up, its table finds the score of every
row, so that a ranked identifier stands for the item of its own row. The curve of such a scoring is that of
the tie blocks of its sorted rows.
-/

import Mathlib
import RankingEval.Proofs.Ranking.Evaluation
import RankingEval.Proofs.Ranking.ScoreOrder
import RankingEval.Ranking.Basic

namespace RankingEval.Ranking

open RankingEval.Number RankingEval.Curve

/-! ## Tables of scores -/

/-- One more pair is one more entry of the table, if its identifier has a key. -/
theorem Scores.ofList_append_singleton (pairs : List (Identity × Except Failure Float)) (id : Identity)
    (score : Except Failure Float) :
    Scores.ofList (pairs ++ [(id, score)]) = (Scores.ofList pairs).bind fun table =>
      match id with
      | .keyed k => .ok ⟨(k, score) :: table.entries⟩
      | .apart => .ok table
      | .keyless _ => .error .mistyped := by
  rw [Scores.ofList, List.foldlM_append]
  congr 1
  funext table
  cases id <;> rfl

/-- A table of scores by key records them, the last one first. -/
theorem Scores.ofList_keyed (entries : List (Key × Except Failure Float)) :
    Scores.ofList (entries.map fun entry => (.keyed entry.1, entry.2)) = .ok ⟨entries.reverse⟩ := by
  induction entries using List.reverseRecOn with
  | nil => rfl
  | append_singleton entries entry ih =>
      rw [List.map_append, List.map_singleton, Scores.ofList_append_singleton, ih, List.reverse_append]
      rfl

/-- A table of scores takes no identifier without a key. -/
theorem Scores.ne_keyless_of_ofList {pairs : List (Identity × Except Failure Float)} {table : Scores}
    (h : ofList pairs = .ok table) : ∀ pair ∈ pairs, ∀ value, pair.1 ≠ .keyless value := by
  induction pairs using List.reverseRecOn generalizing table with
  | nil => exact fun pair hpair => absurd hpair List.not_mem_nil
  | append_singleton pairs pair ih =>
      obtain ⟨id, score⟩ := pair
      rw [ofList_append_singleton] at h
      obtain ⟨before, hbefore, hid⟩ := bind_eq_ok_iff.mp h
      rw [List.forall_mem_append]
      refine ⟨ih hbefore, List.forall_mem_singleton.mpr ?_⟩
      rintro value rfl
      cases hid

/-- A table that holds one score for each key finds them all. -/
theorem Scores.get_of_mem {entries : List (Key × Except Failure Float)}
    (hdifferent : (entries.map Prod.fst).Nodup) {k : Key} {score : Except Failure Float}
    (hmem : (k, score) ∈ entries) : (⟨entries⟩ : Scores).get (.keyed k) = score := by
  obtain ⟨front, back, rfl⟩ := List.append_of_mem hmem
  have hfound : (front ++ (k, score) :: back).lookup k = some score := by
    rw [List.lookup_eq_some_iff]
    refine ⟨front, back, rfl, ?_⟩
    intro entry hentry
    rw [List.map_append, List.nodup_append] at hdifferent
    rw [bne_iff_ne]
    exact (hdifferent.2.2 entry.1 (List.mem_map_of_mem hentry) k (by simp)).symm
  rw [Scores.get, hfound]

/-! ## Identified scorings -/

/-- A scoring is identified when its rows have different identifiers, none of them without a key. -/
structure Scoring.Identified (s : Scoring) : Prop where
  /-- Every identifier has a key. -/
  keyed : ∀ row ∈ s.rows, ∃ k, row.1.identity = .keyed k
  /-- No two identifiers are equal. -/
  different : AllDifferent (s.rows.map (·.1.identity))

/-- The item that a row of a scoring stands for. -/
def rowItem (positives : Positives) (row : Identifier × Float) : Item :=
  ⟨positives.has row.1.identity, some row.2⟩

/-- The table of an identified scoring finds the score of every row. -/
theorem Scoring.Identified.table {s : Scoring} (h : s.Identified) :
    ∃ table, s.table = .ok table ∧ ∀ row ∈ s.rows, table.get row.1.identity = .ok row.2 := by
  let key (row : Identifier × Float) : Key := row.1.identity.key?.getD .missing
  have hkey : ∀ row ∈ s.rows, row.1.identity = .keyed (key row) := by
    intro row hrow
    obtain ⟨k, hk⟩ := h.keyed row hrow
    simp only [key, hk, Identity.key?, Option.getD_some]
  have hentries : s.table = Scores.ofList ((s.rows.map fun row => (key row, .ok row.2)).map
      fun entry => (.keyed entry.1, entry.2)) := by
    rw [Scoring.table, List.map_map]
    congr 1
    refine List.map_congr_left fun row hrow => ?_
    change (row.1.identity, _) = _
    rw [hkey row hrow]
    rfl
  have hdifferent : (s.rows.map key).Nodup := by
    have hkeys : s.rows.map key = (s.rows.map (·.1.identity)).filterMap Identity.key? := by
      rw [List.filterMap_map, ← List.filterMap_eq_map]
      apply List.filterMap_congr
      intro row hrow
      rw [Function.comp_apply, Function.comp_apply, hkey row hrow]
      rfl
    rw [hkeys]
    exact h.different
  refine ⟨_, hentries.trans (Scores.ofList_keyed _), ?_⟩
  intro row hrow
  rw [hkey row hrow]
  apply Scores.get_of_mem
  · rw [List.map_reverse, List.nodup_reverse, List.map_map]
    exact hdifferent
  · rw [List.mem_reverse]
    exact List.mem_map_of_mem hrow

/-- The identifiers that an identified scoring ranks are looked up as the items of its rows. -/
theorem Scoring.Identified.looked {s : Scoring} (h : s.Identified) (positives : Positives)
    {table : Scores} (hfound : ∀ row ∈ s.rows, table.get row.1.identity = .ok row.2) :
    (s.order.ids.map (·.identity)).mapM (Item.of positives (some table)) =
      .ok ((sortedByScore s.ascending s.rows).map (rowItem positives)) := by
  rw [mapM_eq_ok_iff, Scoring.order, List.map_map, List.forall₂_map_left_iff,
    List.forall₂_map_right_iff, List.forall₂_same]
  intro row hmem
  have hrow := (sortedByScore_perm s.ascending s.rows).mem_iff.mp hmem
  apply Item.of_eq_ok_iff.mpr
  constructor
  · obtain ⟨k, hk⟩ := h.keyed row hrow
    obtain ⟨held, hheld⟩ := positives.holds_keyed k
    change positives.holds row.1.identity = .ok (positives.has row.1.identity)
    rw [hk, hheld, Positives.has_of_holds hheld]
  · exact ⟨row.2, hfound row hrow, rfl⟩

/-- What comes of an identified scoring: a failure when there are no positives or no rows, and otherwise the
curve of the tie blocks of its sorted rows. -/
theorem Scoring.Identified.curve_eq {s : Scoring} (h : s.Identified) (positives : Positives) :
    Ranking.curve positives (.scoring s) =
      if positives.count = 0 then .error .noPositives
      else if s.rows = [] then .error (.emptyRanking positives.count)
      else
        let curve := blockCurve straightness positives.count
          ((sortedByScore s.ascending s.rows).map (rowItem positives))
        .ok (curve, entries (.int s.rows.length) s.rows.length curve.curve.size) := by
  obtain ⟨table, htable, hfound⟩ := h.table
  have hlength : (s.order.ids.map (·.identity)).length = s.rows.length := by
    rw [List.length_map, Scoring.order, List.length_map]
    exact (sortedByScore_perm s.ascending s.rows).length_eq
  have hids : s.order.ids.map (·.identity) = [] ↔ s.rows = [] := by
    rw [← List.length_eq_zero_iff, hlength, List.length_eq_zero_iff]
  have hbuilt := evaluateWithin_of_looked straightness (.int s.rows.length)
    (h.looked positives hfound)
  simp only [hids, hlength] at hbuilt
  rw [Ranking.curve, htable]
  exact hbuilt

end RankingEval.Ranking
