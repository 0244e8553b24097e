/-
# Look-ups that find nothing

An evaluation may fail for many causes. That a look-up finds nothing is one of them only where a scoring ranks
an identifier for which it holds no score: the labels, the positives and the area of a curve are never asked
for what is not there.
-/

import Mathlib
import RankingEval.Proofs.Curve.Buffer
import RankingEval.Proofs.Evaluation.Agenda
import RankingEval.Proofs.Evaluation.Steps
import RankingEval.Proofs.Ranking.Scorings

namespace RankingEval

open RankingEval.Number RankingEval.Ranking RankingEval.Curve

/-- A look-up found nothing: columns are missing, or an entry is. -/
def Failure.isMiss : Failure → Bool
  | columnsMissing .. | entryMissing => true
  | _ => false

/-- An outcome is a miss: a look-up found nothing. -/
def missed {α : Type} : Except Failure α → Bool
  | .ok _ => false
  | .error failure => failure.isMiss

theorem exists_of_missed {α : Type} {outcome : Except Failure α} (h : missed outcome = true) :
    ∃ failure, outcome = .error failure ∧ failure.isMiss = true := by
  cases outcome with
  | ok a => cases h
  | error failure => exact ⟨failure, rfl, h⟩

variable {failure : Failure}

/-! ## Labels and positives -/

theorem Labels.isMiss_of_matchingPattern {flags : Pattern.Flags} {source : String} {labels : Labels}
    (h : labels.matchingPattern flags (.text source) = .error failure) : failure.isMiss = false := by
  rw [matchingPattern] at h
  split at h
  · rw [matching] at h
    split_ifs at h
    cases h
    rfl
  · cases h
    rfl

namespace Ranking

theorem Positives.isMiss_of_ofIdentities {ids : List Identity} (h : ofIdentities ids = .error failure) :
    failure.isMiss = false := by
  induction ids using List.reverseRecOn with
  | nil => cases h
  | append_singleton ids id ih =>
      rw [ofIdentities_append_singleton] at h
      rcases bind_eq_error_iff.mp h with hids | ⟨set, -, hid⟩
      · exact ih hids
      · cases set <;> cases id <;> cases hid <;> rfl

theorem Positives.isMiss_of_holds {positives : Positives} {id : Identity}
    (h : positives.holds id = .error failure) : failure.isMiss = false := by
  cases positives <;> cases id <;> cases h
  rfl

theorem Scores.isMiss_of_ofList {pairs : List (Identity × Except Failure Float)}
    (h : ofList pairs = .error failure) : failure.isMiss = false := by
  induction pairs using List.reverseRecOn with
  | nil => cases h
  | append_singleton pairs pair ih =>
      obtain ⟨id, score⟩ := pair
      rw [ofList_append_singleton] at h
      rcases bind_eq_error_iff.mp h with hpairs | ⟨table, -, hid⟩
      · exact ih hpairs
      · cases id <;> cases hid
        rfl

/-! ## Rankings -/

/-- An item is missed where its score is. -/
theorem exists_of_item_missed {positives : Positives} {scores : Option Scores} {id : Identity}
    (h : Item.of positives scores id = .error failure) (hmiss : failure.isMiss = true) :
    ∃ table ∈ scores, table.get id = .error failure := by
  rcases bind_eq_error_iff.mp h with hheld | ⟨held, -, hscore⟩
  · rw [Positives.isMiss_of_holds hheld] at hmiss
    cases hmiss
  · cases scores with
    | none => cases hscore
    | some table =>
        rcases bind_eq_error_iff.mp hscore with hget | ⟨score, -, ⟨⟩⟩
        exact ⟨table, rfl, hget⟩

/-- Where the evaluation of identifiers misses something, it is the score of one of them. -/
theorem exists_of_evaluateWithin_missed {α : Type} [Coordinate α] {tolerance : α} {expected : Datum}
    {positives : Positives} {ids : List Identity} {scores : Option Scores}
    (h : evaluateWithin tolerance expected positives ids scores = .error failure)
    (hmiss : failure.isMiss = true) : ∃ table ∈ scores, ∃ id ∈ ids, table.get id = .error failure := by
  cases hlooked : ids.mapM (Item.of positives scores) with
  | ok items =>
      rw [evaluateWithin_of_looked tolerance expected hlooked] at h
      split_ifs at h <;> cases h <;> cases hmiss
  | error other =>
      rw [evaluateWithin, hlooked] at h
      split_ifs at h <;> cases h
      · cases hmiss
      · obtain ⟨id, hid, hitem⟩ := exists_of_mapM_eq_error hlooked
        obtain ⟨table, htable, hget⟩ := exists_of_item_missed hitem hmiss
        exact ⟨table, htable, id, hid, hget⟩

/-- A ranking is missed only where it is a scoring that lacks the score of one of its rows. -/
theorem exists_of_curve_missed {positives : Positives} {r : Ranking} (h : r.curve positives = .error failure)
    (hmiss : failure.isMiss = true) :
    ∃ s table, r = .scoring s ∧ s.table = .ok table ∧
      ∃ row ∈ s.rows, table.get row.1.identity = .error failure := by
  cases r with
  | scoring s =>
      rcases bind_eq_error_iff.mp h with htable | ⟨table, htable, hcurve⟩
      · rw [Scores.isMiss_of_ofList htable] at hmiss
        cases hmiss
      · obtain ⟨found, hfound, id, hid, hget⟩ := exists_of_evaluateWithin_missed hcurve hmiss
        cases hfound
        rw [Scoring.order, List.map_map] at hid
        obtain ⟨row, hrow, rfl⟩ := List.mem_map.mp hid
        exact ⟨s, table, rfl, htable, row, (sortedByScore_perm s.ascending s.rows).mem_iff.mp hrow, hget⟩
  | order o =>
      obtain ⟨table, htable, -⟩ := exists_of_evaluateWithin_missed h hmiss
      cases htable

end Ranking

/-! ## Evaluations -/

namespace Evaluation

variable {s t : State} {positives : Positives} {r : Ranking}

/-- The evaluation of one ranking misses what its curve misses. -/
theorem curve_eq_error_of_missed (h : (evaluateRanking positives r).run.run s = (.error failure, t))
    (hmiss : failure.isMiss = true) : r.curve positives = .error failure := by
  cases hcurve : r.curve positives with
  | error other =>
      rw [run_evaluateRanking_of_error s hcurve] at h
      cases h
      rfl
  | ok plotted =>
      obtain ⟨curve, entries⟩ := plotted
      rw [run_evaluateRanking_of_curve s hcurve] at h
      cases harea : curve.readArea.value with
      | ok area =>
          rw [harea] at h
          cases h
      | error other =>
          rw [harea] at h
          cases h
          rw [RecallCurve.eq_areaUndefined_of_readArea harea] at hmiss
          cases hmiss

/-- An evaluation is a miss only where one of its scorings lacks the score of a row. -/
theorem exists_of_evaluate_missed {positiveClass : String} {labels : Labels} {rankings : List Ranking}
    (hmissed : missed ((evaluate positiveClass labels rankings).run.run s).1 = true) :
    ∃ scoring table, .scoring scoring ∈ rankings ∧ scoring.table = .ok table ∧
      ∃ row ∈ scoring.rows, (table.get row.1.identity).isOk = false := by
  obtain ⟨failure, hfails, hmiss⟩ := exists_of_missed hmissed
  rcases run_evaluate_cases s positiveClass labels rankings with
    ⟨other, hother, hrun⟩ | ⟨-, journal, hrun⟩ | ⟨positives, hrun⟩
  · rw [hrun] at hfails
    cases hfails
    rcases bind_eq_error_iff.mp hother with hmatched | ⟨matched, -, hpositives⟩
    · rw [Labels.isMiss_of_matchingPattern hmatched] at hmiss
      cases hmiss
    · rw [Positives.isMiss_of_ofIdentities hpositives] at hmiss
      cases hmiss
  · rw [hrun] at hfails
    cases hfails
  · rw [hrun] at hfails
    obtain ⟨r, hr, before, hfirst⟩ := exists_of_run_forM_eq_error (Prod.ext hfails rfl)
    obtain ⟨scoring, table, rfl, htable, row, hrow, hget⟩ :=
      exists_of_curve_missed (curve_eq_error_of_missed hfirst hmiss) hmiss
    exact ⟨scoring, table, mem_of_mem_agenda hr, htable, row, hrow, hget ▸ rfl⟩

end Evaluation

end RankingEval
