/-
# What an evaluation leaves

An evaluation that succeeds has read the area of every curve that it stored, so that the text and the summary of
its results can be read afterwards. It leaves a store without results only where there was nothing to evaluate:
no label matches, or there are no rankings.
-/

import Mathlib
import RankingEval.Proofs.Evaluation.Agenda
import RankingEval.Proofs.Evaluation.Readings
import RankingEval.Proofs.Store

namespace RankingEval

open RankingEval.Number RankingEval.Ranking

theorem Store.mem_add {γ : Type} {s : Store γ} {r : Ranking} {result : γ} {entry : Ranking × γ}
    (h : entry ∈ (s.add r result).entries) : entry = (r, result) ∨ entry ∈ s.entries := by
  rw [Store.add] at h
  split_ifs at h
  · obtain ⟨old, hold, rfl⟩ := List.mem_map.mp h
    split_ifs
    · exact .inl rfl
    · exact .inr hold
  · rcases List.mem_append.mp h with hold | hnew
    · exact .inr hold
    · exact .inl (List.mem_singleton.mp hnew)

theorem Store.entries_add_ne_nil {γ : Type} (s : Store γ) (r : Ranking) (result : γ) :
    (s.add r result).entries ≠ [] := by
  intro hnil
  have hcontains := s.contains_add r result r
  rw [Store.contains, hnil, beq_self_eq_true] at hcontains
  exact Bool.false_ne_true hcontains

namespace Evaluation

/-- Every result of the store stands on the shelf, and its area can be read. -/
structure Readable (s : State) : Prop where
  inside : ∀ entry ∈ s.store.entries, entry.2 < s.shelf.size
  area : ∀ entry ∈ s.store.entries, (s.curve entry.2).readArea.value.isOk = true

variable {positives : Positives} {s t : State} {r : Ranking} {rankings : List Ranking}

/-- A curve that is put on the shelf stands behind the others. -/
theorem curve_push (s : State) (curve : RecallCurve Float) (store : Store ℕ) (journal : Journal) (place : ℕ) :
    State.curve ⟨s.shelf.push curve, store, journal⟩ place =
      if place = s.shelf.size then curve else s.curve place := by
  simp only [State.curve, Array.getD_eq_getD_getElem?, Array.getElem?_push]
  split_ifs <;> rfl

/-- The evaluation of one ranking keeps the results readable, and leaves some. -/
theorem readable_of_run_evaluateRanking (hs : Readable s)
    (h : (evaluateRanking positives r).run.run s = (.ok (), t)) :
    Readable t ∧ t.store.entries ≠ [] := by
  obtain ⟨curve, entries, area, hcurve, harea⟩ := exists_of_run_evaluateRanking s h
  rw [run_evaluateRanking_of_ok s hcurve harea] at h
  cases h
  refine ⟨⟨fun entry hentry => ?_, fun entry hentry => ?_⟩, s.store.entries_add_ne_nil r _⟩
  · rw [Array.size_push]
    rcases Store.mem_add hentry with rfl | hold
    · exact Nat.lt_succ_self _
    · exact (hs.inside entry hold).trans (Nat.lt_succ_self _)
  · rw [curve_push]
    split_ifs with hplace
    · rw [RecallCurve.value_readArea_readArea, harea]
      rfl
    · rcases Store.mem_add hentry with rfl | hold
      · exact absurd rfl hplace
      · exact hs.area entry hold

/-- So does the evaluation of many rankings. -/
theorem readable_of_run_forM (hs : Readable s)
    (h : (rankings.forM (evaluateRanking positives)).run.run s = (.ok (), t)) :
    Readable t ∧ (rankings ≠ [] ∨ s.store.entries ≠ [] → t.store.entries ≠ []) := by
  induction rankings generalizing s with
  | nil =>
      cases h
      exact ⟨hs, fun hsome => hsome.resolve_left (absurd rfl)⟩
  | cons r rankings ih =>
      rcases hfirst : (evaluateRanking positives r).run.run s with ⟨failure | _, u⟩
      · rw [List.forM, run_bind_of_error hfirst] at h
        cases h
      · rw [List.forM, run_bind_of_ok hfirst] at h
        obtain ⟨hu, hsome⟩ := readable_of_run_evaluateRanking hs hfirst
        obtain ⟨ht, hkept⟩ := ih hu h
        exact ⟨ht, fun _ => hkept (.inr hsome)⟩

/-- Where there are rankings, there is something to evaluate. -/
theorem agenda_ne_nil (h : rankings ≠ []) : agenda rankings ≠ [] := by
  have hfirst {rs : List Ranking} (hnil : firstAppearances rs = []) : rs = [] := by
    cases rs with
    | nil => rfl
    | cons r rs =>
        rw [firstAppearances, List.eraseDupsBy_cons] at hnil
        cases hnil
  intro hnil
  rw [agenda_eq_due, due, List.append_eq_nil_iff] at hnil
  have hscorings := List.filter_eq_nil_iff.mp (hfirst hnil.1)
  have horders := List.filter_eq_nil_iff.mp (hfirst hnil.2)
  obtain ⟨r, hr⟩ := List.exists_mem_of_ne_nil rankings h
  -- an order is left out only for a scoring that derives it, and there is none
  have hderived : r.isDerivedIn rankings = false := by
    rw [isDerivedIn, List.any_eq_false]
    intro other hother
    cases other with
    | scoring s => exact absurd rfl (hscorings _ hother)
    | order o => exact Bool.false_ne_true
  have hscoring := hscorings r hr
  exact horders r hr (by simp [hscoring, hderived])

/-! ## Whole evaluations -/

variable {positiveClass : String} {labels : Labels}

/-- Where no label matches, that is reported, and nothing else happens. -/
theorem run_evaluate_of_unmatched (h : labels.matchingPattern {} (.text positiveClass) = .ok [])
    (rankings : List Ranking) (s : State) :
    ∃ journal, (evaluate positiveClass labels rankings).run.run s = (.ok (), { s with journal }) := by
  rw [evaluate, run_bind_of_ok (run_lift_of_ok h)]
  exact ⟨_, rfl⟩

/-- Where there are no rankings, an evaluation that succeeds leaves the store as it was. -/
theorem store_of_run_evaluate_nil
    (h : (evaluate positiveClass labels []).run.run s = (.ok (), t)) : t.store = s.store := by
  rcases run_evaluate_cases s positiveClass labels [] with
    ⟨failure, -, hrun⟩ | ⟨-, journal, hrun⟩ | ⟨positives, hrun⟩
  · rw [hrun] at h
    cases h
  · rw [hrun] at h
    cases h
    rfl
  · rw [hrun] at h
    cases h
    rfl

/-- An evaluation that succeeds leaves results that can be read, and leaves some if a label matches and there
is a ranking. -/
theorem readable_of_run_evaluate (hs : Readable s)
    (h : (evaluate positiveClass labels rankings).run.run s = (.ok (), t))
    (hmatches : labels.matchingPattern {} (.text positiveClass) ≠ .ok []) (hsome : rankings ≠ []) :
    Readable t ∧ t.store.entries ≠ [] := by
  rcases run_evaluate_cases s positiveClass labels rankings with
    ⟨failure, -, hrun⟩ | ⟨hunmatched, -⟩ | ⟨positives, hrun⟩
  · rw [hrun] at h
    cases h
  · exact absurd hunmatched hmatches
  · rw [hrun] at h
    obtain ⟨ht, hleft⟩ := readable_of_run_forM hs h
    exact ⟨ht, hleft (.inl (agenda_ne_nil hsome))⟩

/-- The text and the summary of readable results can be read. -/
theorem Readable.exists_text (hs : Readable s) :
    ∃ out areas, (text.run.run s).1 = .ok out ∧ (summary.run.run s).1 = .ok areas := by
  have hsummary : (summary.run.run s).1.isOk = true := by
    rw [isOk_summary, List.all_eq_true]
    exact hs.area
  have htext : (text.run.run s).1.isOk = true := isOk_text_eq_isOk_summary s ▸ hsummary
  obtain ⟨out, hout⟩ := exists_of_isOk htext
  obtain ⟨areas, hareas⟩ := exists_of_isOk hsummary
  exact ⟨out, areas, hout, hareas⟩

end Evaluation

end RankingEval
