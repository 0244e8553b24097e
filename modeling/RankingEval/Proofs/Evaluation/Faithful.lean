/-
# Areas that are those of their curves

A curve that an evaluation puts into the store was built, and its area read, before anything else could touch it.
So what is read as its area is the area under its points. Further evaluations put their curves beside it, what is
only read stays as it is, and whoever extends a curve leaves the others alone. After any sequence of evaluations,
readings and extensions, this holds of every result that the evaluations have put into the store and whose curve
nobody has extended, and of those before them of which it held.
-/

import Mathlib
import RankingEval.Proofs.Curve.Memory
import RankingEval.Proofs.Evaluation.Results
import RankingEval.Proofs.Ranking.Evaluation

namespace RankingEval

open RankingEval.Number RankingEval.Ranking RankingEval.Curve

namespace Ranking

variable {α : Type} [Coordinate α]

/-- No area is read while a curve is built. -/
theorem area?_of_evaluateWithin {tolerance : α} {expected : Datum} {positives : Positives} {ids : List Identity}
    {scores : Option Scores} {curve : RecallCurve α} {entries : Journal}
    (h : evaluateWithin tolerance expected positives ids scores = .ok (curve, entries)) : curve.area? = none := by
  cases hlooked : ids.mapM (Item.of positives scores) with
  | error failure =>
      rw [evaluateWithin, hlooked] at h
      split_ifs at h <;> cases h
  | ok items =>
      rw [evaluateWithin_of_looked tolerance expected hlooked] at h
      split_ifs at h
      cases h
      exact RecallCurve.area?_foldl_extendTo tolerance _ _

theorem area?_of_curve {positives : Positives} {r : Ranking} {curve : RecallCurve Float} {entries : Journal}
    (h : r.curve positives = .ok (curve, entries)) : curve.area? = none := by
  cases r with
  | scoring s =>
      obtain ⟨table, -, hbuilt⟩ := bind_eq_ok_iff.mp h
      exact area?_of_evaluateWithin hbuilt
  | order o => exact area?_of_evaluateWithin h

end Ranking

namespace Evaluation

/-- What is read as the area of the curve at a place is the area under its points. -/
def Faithful (s : State) (place : ℕ) : Prop := (s.curve place).readArea.value = (s.curve place).curve.area

/-- From one state to another, results stay faithful, and those that are new are. Nothing is said of the curves at
places that were touched. -/
structure Faithfully (touched : Set ℕ) (s t : State) : Prop where
  kept : ∀ place, place ∉ touched → Faithful s place → Faithful t place
  fresh : ∀ entry ∈ t.store.entries, entry.2 ∉ touched → entry ∈ s.store.entries ∨ Faithful t entry.2

namespace Faithfully

variable {touched : Set ℕ} {s t u : State}

protected theorem refl (s : State) : Faithfully touched s s := ⟨fun _ _ h => h, fun _ h _ => .inl h⟩

protected theorem trans (h : Faithfully touched s t) (h' : Faithfully touched t u) : Faithfully touched s u where
  kept place huntouched hplace := h'.kept place huntouched (h.kept place huntouched hplace)
  fresh entry hentry huntouched := by
    rcases h'.fresh entry hentry huntouched with hold | hfaithful
    · exact (h.fresh entry hold huntouched).imp_right (h'.kept entry.2 huntouched)
    · exact .inr hfaithful

/-- Whoever only reads keeps everything faithful. -/
theorem of_agrees (h : Agrees s t) : Faithfully touched s t where
  kept place _ hplace := by
    rw [Faithful, h.area, h.curve]
    exact hplace
  fresh entry hentry _ := .inl (h.store ▸ hentry)

end Faithfully

/-! ## Evaluations -/

variable {touched : Set ℕ} {positives : Positives} {r : Ranking}

/-- A curve that was built just now and whose area was read is put on the shelf, and into the store. -/
theorem faithfully_push (s : State) {curve : RecallCurve Float} (hcurve : curve.area? = none) (r : Ranking)
    (journal : Journal) :
    Faithfully touched s ⟨s.shelf.push curve.readArea.curve, s.store.add r s.shelf.size, journal⟩ := by
  have hnew : curve.readArea.curve.readArea.value = curve.readArea.curve.curve.area := by
    rw [RecallCurve.value_readArea_readArea, RecallCurve.value_readArea_of_none hcurve,
      RecallCurve.curve_readArea]
  constructor
  · intro place _ hplace
    rw [Faithful, curve_push]
    split_ifs
    · exact hnew
    · exact hplace
  · intro entry hentry _
    rcases Store.mem_add hentry with rfl | hold
    · right
      rw [Faithful, curve_push, if_pos rfl]
      exact hnew
    · exact .inl hold

/-- The evaluation of one ranking goes on faithfully, whether or not it succeeds. -/
theorem faithfully_evaluateRanking (positives : Positives) (r : Ranking) (s : State) :
    Faithfully touched s ((evaluateRanking positives r).run.run s).2 := by
  cases hcurve : r.curve positives with
  | error failure =>
      rw [run_evaluateRanking_of_error s hcurve]
      exact .refl s
  | ok plotted =>
      obtain ⟨curve, entries⟩ := plotted
      rw [run_evaluateRanking_of_curve s hcurve]
      cases curve.readArea.value with
      | error failure => exact faithfully_push s (area?_of_curve hcurve) r _
      | ok area => exact faithfully_push s (area?_of_curve hcurve) r _

/-- So does the evaluation of one ranking after the other. -/
theorem faithfully_forM (positives : Positives) (rankings : List Ranking) (s : State) :
    Faithfully touched s ((rankings.forM (evaluateRanking positives)).run.run s).2 := by
  induction rankings generalizing s with
  | nil => exact .refl s
  | cons r rankings ih =>
      have hfirst : Faithfully touched s ((evaluateRanking positives r).run.run s).2 :=
        faithfully_evaluateRanking positives r s
      rcases hrun : (evaluateRanking positives r).run.run s with ⟨failure | _, t⟩
      · rw [List.forM, run_bind_of_error hrun]
        rwa [hrun] at hfirst
      · rw [List.forM, run_bind_of_ok hrun]
        rw [hrun] at hfirst
        exact hfirst.trans (ih t)

/-- A whole evaluation does, with any labels and any rankings. -/
theorem faithfully_evaluate (positiveClass : String) (labels : Labels) (rankings : List Ranking) (s : State) :
    Faithfully touched s ((evaluate positiveClass labels rankings).run.run s).2 := by
  rcases run_evaluate_cases s positiveClass labels rankings with
    ⟨failure, -, hrun⟩ | ⟨-, journal, hrun⟩ | ⟨positives, hrun⟩
  · rw [hrun]
    exact .refl s
  · rw [hrun]
    exact .of_agrees ⟨rfl, fun _ => rfl, fun _ => rfl⟩
  · rw [hrun]
    exact faithfully_forM positives (agenda rankings) s

/-! ## Histories -/

/-- What may be done with results. -/
inductive Doing where
  /-- Evaluate rankings. -/
  | evaluate (positiveClass : String) (labels : Labels) (rankings : List Ranking)
  /-- Read the area of a curve. -/
  | readArea (place : ℕ)
  /-- Read the lines of a curve. -/
  | readLines (place : ℕ)
  /-- Read the text of the results. -/
  | readText
  /-- Read the summary of their areas. -/
  | readSummary
  /-- Append a point to a curve. -/
  | add (place : ℕ) (x y : Datum)
  /-- Append a point to a curve, or move its last one there. -/
  | addSimplified (place : ℕ) (x y : Datum)

/-- The state in which the curve at a place was used, whether or not that succeeded. -/
def State.using (s : State) (place : ℕ) (u : RecallCurve.Use) : State :=
  { s with shelf := s.shelf.modify place fun c => (u.run c).2 }

namespace Doing

/-- The state in which something is left, whether or not it succeeds. -/
def run (s : State) : Doing → State
  | evaluate positiveClass labels rankings => ((Evaluation.evaluate positiveClass labels rankings).run.run s).2
  | readArea place => ((areaAt place).run.run s).2
  | readLines place => ((linesAt place).run.run s).2
  | readText => (text.run.run s).2
  | readSummary => (summary.run.run s).2
  | add place x y => s.using place (.add x y)
  | addSimplified place x y => s.using place (.addSimplified x y)

/-- The place of the curve that is extended, if one is. -/
def extended? : Doing → Option ℕ
  | add place _ _ | addSimplified place _ _ => some place
  | _ => none

end Doing

/-- The places of the curves that are extended. -/
def extendedIn (doings : List Doing) : Set ℕ := {place | ∃ doing ∈ doings, doing.extended? = some place}

theorem curve_using (s : State) {place other : ℕ} (u : RecallCurve.Use) (h : place ≠ other) :
    (s.using place u).curve other = s.curve other := by
  simp [State.curve, State.using, Array.getD_eq_getD_getElem?, Array.getElem?_modify, h]

/-- Whoever uses the curve at a place keeps the others faithful. -/
theorem faithfully_using (s : State) {place : ℕ} (u : RecallCurve.Use) (h : place ∈ touched) :
    Faithfully touched s (s.using place u) where
  kept other huntouched hother := by
    have hne : place ≠ other := by
      rintro rfl
      exact huntouched h
    rw [Faithful, curve_using s u hne]
    exact hother
  fresh entry hentry _ := .inl hentry

theorem Doing.faithfully_run (s : State) (doing : Doing) (h : ∀ place ∈ doing.extended?, place ∈ touched) :
    Faithfully touched s (doing.run s) := by
  cases doing with
  | evaluate positiveClass labels rankings => exact faithfully_evaluate positiveClass labels rankings s
  | readArea place => exact .of_agrees (reads_areaAt s place s (.refl s)).2
  | readLines place => exact .of_agrees (reads_linesAt s place s (.refl s)).2
  | readText => exact .of_agrees (reads_text s s (.refl s)).2
  | readSummary => exact .of_agrees (reads_summary s s (.refl s)).2
  | add place x y => exact faithfully_using s _ (h place rfl)
  | addSimplified place x y => exact faithfully_using s _ (h place rfl)

/-- Whatever is evaluated, read and extended, in any order, goes on faithfully beside the curves that are
extended. -/
theorem faithfully_foldl_run (doings : List Doing) (h : extendedIn doings ⊆ touched) (s : State) :
    Faithfully touched s (doings.foldl Doing.run s) := by
  induction doings generalizing s with
  | nil => exact .refl s
  | cons doing doings ih =>
      have hfirst : ∀ place ∈ doing.extended?, place ∈ touched := by
        intro place hplace
        exact h ⟨doing, List.mem_cons_self, hplace⟩
      have hlater : extendedIn doings ⊆ touched := by
        rintro place ⟨later, hmem, hplace⟩
        exact h ⟨later, List.mem_cons_of_mem doing hmem, hplace⟩
      exact (doing.faithfully_run s hfirst).trans (ih hlater (doing.run s))

end Evaluation

end RankingEval
