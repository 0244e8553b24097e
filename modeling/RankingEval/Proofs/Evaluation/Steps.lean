/-
# The steps of an evaluation

The steps in the evaluation of one ranking are composed here: its curve comes behind the curves on the
shelf, the store pairs the ranking with the place of the curve, and the journal continues. When a ranking
has no curve, nothing of this happens.
-/

import RankingEval.Evaluation.Basic
import RankingEval.Proofs.Computation

namespace RankingEval.Evaluation

open RankingEval.Ranking

/-! ## Single steps -/

variable (s : State)

theorem run_report (entries : Journal) :
    (report entries).run.run s = (.ok (), { s with journal := s.journal ++ entries }) := rfl

theorem run_shelve (curve : RecallCurve Float) :
    (shelve curve).run.run s = (.ok s.shelf.size, { s with shelf := s.shelf.push curve }) := rfl

theorem run_record (r : Ranking) (place : Nat) :
    (record r place).run.run s =
      (.ok (), { s with
        store := s.store.add r place
        journal := s.journal ++ s.store.addReport r }) := rfl

/-- Reading an area leaves the curve on the shelf that remembers it. -/
theorem run_areaAt (place : Nat) {curve : RecallCurve Float}
    (h : s.shelf.getD place (.ofSize 0) = curve) :
    (areaAt place).run.run s =
      (curve.readArea.value, { s with
        shelf := s.shelf.set! place curve.readArea.curve
        journal := s.journal ++ curve.readArea.entries }) := by
  have hcurve : (curveAt place).run.run s = (.ok curve, s) := by
    rw [← h]
    rfl
  rw [areaAt, run_bind_of_ok hcurve]
  dsimp only
  cases curve.readArea.value <;> rfl

/-! ## The evaluation of one ranking -/

/-- The entry that tells the area under the curve of a ranking. -/
def areaLine (r : Ranking) (area : Float) : Entry :=
  ⟨.info, .evaluation, r.name ++ ": " ++ RecallCurve.areaName ++ " = " ++ areaText area⟩

variable {positives : Positives} {r : Ranking}

/-- A ranking without a curve fails and changes nothing. -/
theorem run_evaluateRanking_of_error {failure : Failure} (h : r.curve positives = .error failure) :
    (evaluateRanking positives r).run.run s = (.error failure, s) := by
  rw [evaluateRanking, h]
  rfl

/-- A ranking with a curve gets it: the curve that remembers its area is put on the shelf, the store is
given its place, and everything on the way is told in order. Then the area is told, if there is one. -/
theorem run_evaluateRanking_of_curve {curve : RecallCurve Float} {entries : Journal}
    (hcurve : r.curve positives = .ok (curve, entries)) :
    (evaluateRanking positives r).run.run s =
      (do report [areaLine r (← curve.readArea.value)] : Evaluating Unit).run.run
        { shelf := s.shelf.push curve.readArea.curve
          store := s.store.add r s.shelf.size
          journal := s.journal ++ entries ++ s.store.addReport r ++ curve.readArea.entries } := by
  have hplace : (s.shelf.push curve).getD s.shelf.size (.ofSize 0) = curve := by
    simp
  have hkept : (s.shelf.push curve).set! s.shelf.size curve.readArea.curve =
      s.shelf.push curve.readArea.curve := by
    simp [Array.setIfInBounds, Array.set_push]
  have hread := run_areaAt
    { shelf := s.shelf.push curve
      store := s.store.add r s.shelf.size
      journal := s.journal ++ entries ++ s.store.addReport r } s.shelf.size hplace
  rw [hkept] at hread
  rw [evaluateRanking, run_bind_of_ok (run_lift_of_ok hcurve)]
  dsimp only
  rw [run_bind_of_ok (run_report s entries), run_bind_of_ok (run_shelve _ curve),
    run_bind_of_ok (run_record _ r s.shelf.size)]
  cases harea : curve.readArea.value with
  | error failure =>
      rw [harea] at hread
      rw [run_bind_of_error hread]
      rfl
  | ok area =>
      rw [harea] at hread
      rw [run_bind_of_ok hread, run_bind_of_ok (run_lift_of_ok rfl)]
      rfl

theorem run_evaluateRanking_of_ok {curve : RecallCurve Float} {entries : Journal} {area : Float}
    (hcurve : r.curve positives = .ok (curve, entries)) (harea : curve.readArea.value = .ok area) :
    (evaluateRanking positives r).run.run s =
      (.ok (),
        { shelf := s.shelf.push curve.readArea.curve
          store := s.store.add r s.shelf.size
          journal := s.journal ++ entries ++ s.store.addReport r ++ curve.readArea.entries ++
            [areaLine r area] }) := by
  rw [run_evaluateRanking_of_curve s hcurve, harea, run_bind_of_ok (run_lift_of_ok rfl), run_report]

/-- A ranking whose evaluation succeeds has a curve with an area. -/
theorem exists_of_run_evaluateRanking {t : State}
    (h : (evaluateRanking positives r).run.run s = (.ok (), t)) :
    ∃ curve entries area, r.curve positives = .ok (curve, entries) ∧ curve.readArea.value = .ok area := by
  cases hcurve : r.curve positives with
  | error failure =>
      rw [run_evaluateRanking_of_error s hcurve] at h
      cases h
  | ok plotted =>
      obtain ⟨curve, entries⟩ := plotted
      cases harea : curve.readArea.value with
      | error failure =>
          rw [run_evaluateRanking_of_curve s hcurve, harea] at h
          cases h
      | ok area => exact ⟨curve, entries, area, rfl, harea⟩

/-! ## The evaluation of a list -/

/-- Where something matches, an evaluation goes through its agenda. -/
theorem run_evaluate {positiveClass : String} {labels : Labels} {matched : List Identifier}
    (hmatched : labels.matchingPattern {} (.text positiveClass) = .ok matched) (hsome : matched ≠ [])
    (hpositives : Positives.ofIdentities (matched.map (·.identity)) = .ok positives)
    (rankings : List Ranking) :
    (evaluate positiveClass labels rankings).run.run s =
      ((agenda rankings).forM (evaluateRanking positives)).run.run s := by
  have hempty : matched.isEmpty = false := by
    rw [List.isEmpty_eq_false_iff]
    exact hsome
  rw [evaluate, run_bind_of_ok (run_lift_of_ok hmatched), run_bind_of_ok (run_lift_of_ok hpositives), hempty]
  rfl

/-- The positives of an evaluation: the identifiers with a matching label. -/
def positivesOf (positiveClass : String) (labels : Labels) : Except Failure Positives := do
  let matched ← labels.matchingPattern {} (.text positiveClass)
  Positives.ofIdentities (matched.map (·.identity))

/-- An evaluation whose labels cannot be matched fails and changes nothing. -/
theorem run_evaluate_of_matching_error {positiveClass : String} {labels : Labels} {failure : Failure}
    (h : labels.matchingPattern {} (.text positiveClass) = .error failure) (rankings : List Ranking) :
    (evaluate positiveClass labels rankings).run.run s = (.error failure, s) := by
  rw [evaluate, h]
  rfl

/-- An evaluation fails like the choice of its positives and changes nothing, or only reports that no label
matches, or goes through its agenda. -/
theorem run_evaluate_cases (positiveClass : String) (labels : Labels) (rankings : List Ranking) :
    (∃ failure, positivesOf positiveClass labels = .error failure ∧
      (evaluate positiveClass labels rankings).run.run s = (.error failure, s)) ∨
    (labels.matchingPattern {} (.text positiveClass) = .ok [] ∧ ∃ journal,
      (evaluate positiveClass labels rankings).run.run s = (.ok (), { s with journal })) ∨
    ∃ positives, (evaluate positiveClass labels rankings).run.run s =
      ((agenda rankings).forM (evaluateRanking positives)).run.run s := by
  cases hmatched : labels.matchingPattern {} (.text positiveClass) with
  | error failure =>
      left
      rw [positivesOf, hmatched]
      exact ⟨failure, rfl, run_evaluate_of_matching_error s hmatched rankings⟩
  | ok matched =>
      cases hpositives : Positives.ofIdentities (matched.map (·.identity)) with
      | error failure =>
          left
          rw [positivesOf, evaluate, hmatched, run_bind_of_ok (run_lift_of_ok rfl), hpositives]
          exact ⟨failure, hpositives, rfl⟩
      | ok positives =>
          right
          by_cases hsome : matched = []
          · left
            subst hsome
            rw [evaluate, hmatched]
            exact ⟨rfl, _, rfl⟩
          · right
            exact ⟨positives, run_evaluate s hmatched hsome hpositives rankings⟩

end RankingEval.Evaluation
