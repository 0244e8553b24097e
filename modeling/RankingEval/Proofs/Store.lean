/-
# A store to which many results are added

Results for different rankings can be added to a store one after the other. A ranking that was in the store
keeps its place and takes its new result, and the rankings that were not come behind it in the order in
which they were added.
-/

import Mathlib.Data.List.Basic
import RankingEval.Store

namespace RankingEval.Store

variable {γ : Type}

/-- Adds results in turn. -/
def addAll (s : Store γ) (results : List (Ranking × γ)) : Store γ :=
  results.foldl (fun s result => s.add result.1 result.2) s

/-- An entry after results were added: the result for its ranking, or the entry itself if there is none. -/
def renewed (results : List (Ranking × γ)) (entry : Ranking × γ) : Ranking × γ :=
  (results.find? fun result => result.1.handle == entry.1.handle).getD entry

theorem contains_add (s : Store γ) (r : Ranking) (result : γ) (other : Ranking) :
    (s.add r result).contains other = (r.handle == other.handle || s.contains other) := by
  rw [add]
  by_cases h : s.contains r = true
  · have hsame (entry : Ranking × γ) :
        ((if entry.1.handle == r.handle then (r, result) else entry).1.handle == other.handle) =
          (entry.1.handle == other.handle) := by
      by_cases heq : entry.1.handle = r.handle
      · rw [if_pos (beq_iff_eq.mpr heq), heq]
      · rw [if_neg (mt beq_iff_eq.mp heq)]
    rw [if_pos h]
    simp only [contains, List.any_map, Function.comp_def, hsame]
    by_cases heq : r.handle = other.handle
    · rw [contains, heq] at h
      rw [h, Bool.or_true]
    · rw [beq_eq_false_iff_ne.mpr heq, Bool.false_or]
  · rw [if_neg h]
    simp only [contains, List.any_append, List.any_cons, List.any_nil, Bool.or_false]
    exact Bool.or_comm _ _

/-- A result for one ranking does not change what is reported of another one. -/
theorem addReport_add (s : Store γ) (result : γ) {r other : Ranking} (h : r.handle ≠ other.handle) :
    (s.add r result).addReport other = s.addReport other := by
  rw [addReport, addReport, contains_add, beq_eq_false_iff_ne.mpr h, Bool.false_or]

/-- The entry that records that the result of a ranking was replaced. -/
def replacingEntry (r : Ranking) : Entry :=
  ⟨.warning, .results, "Replacing existing curve for ranking '" ++ r.name ++ "'"⟩

/-- What is reported of many rankings: one replacement for each of them that had a result. -/
theorem flatMap_addReport (s : Store γ) (rankings : List Ranking) :
    rankings.flatMap s.addReport = (rankings.filter fun r => s.contains r).map replacingEntry := by
  induction rankings with
  | nil => rfl
  | cons r rest ih =>
      rw [List.flatMap_cons, ih, addReport]
      by_cases h : s.contains r = true
      · rw [if_pos h, List.filter_cons_of_pos h, List.map_cons]
        rfl
      · rw [if_neg h, List.filter_cons_of_neg h, List.nil_append]

theorem renewed_cons (result : Ranking × γ) (results : List (Ranking × γ)) (entry : Ranking × γ) :
    renewed (result :: results) entry =
      if result.1.handle = entry.1.handle then result else renewed results entry := by
  rw [renewed, List.find?_cons]
  by_cases h : result.1.handle = entry.1.handle
  · rw [beq_iff_eq.mpr h, if_pos h]
    rfl
  · rw [beq_eq_false_iff_ne.mpr h, if_neg h]
    rfl

/-- An entry whose ranking is not among those of the results stays. -/
theorem renewed_of_forall_ne {results : List (Ranking × γ)} {entry : Ranking × γ}
    (h : ∀ result ∈ results, result.1.handle ≠ entry.1.handle) : renewed results entry = entry := by
  have hnone : results.find? (fun result => result.1.handle == entry.1.handle) = none := by
    rw [List.find?_eq_none]
    intro result hresult
    rw [beq_iff_eq]
    exact h result hresult
  rw [renewed, hnone, Option.getD_none]

/-- The store after results for different rankings were added: every entry is renewed in its place, and the
rankings that were not in the store follow in order. -/
theorem entries_addAll (s : Store γ) {results : List (Ranking × γ)}
    (different : (results.map (·.1.handle)).Nodup) :
    (s.addAll results).entries =
      s.entries.map (renewed results) ++ results.filter fun result => !s.contains result.1 := by
  induction results generalizing s with
  | nil =>
      have hid : renewed ([] : List (Ranking × γ)) = id := rfl
      rw [hid, List.map_id, List.filter_nil, List.append_nil]
      rfl
  | cons result results ih =>
      rw [List.map_cons, List.nodup_cons] at different
      have hother : ∀ other ∈ results, other.1.handle ≠ result.1.handle := by
        intro other hmem heq
        exact different.1 (heq ▸ List.mem_map_of_mem hmem)
      have hnew : results.filter (fun other => !(s.add result.1 result.2).contains other.1) =
          results.filter fun other => !s.contains other.1 := by
        apply List.filter_congr
        intro other hmem
        rw [contains_add, beq_eq_false_iff_ne.mpr (hother other hmem).symm, Bool.false_or]
      -- no later result is for the first ranking, so that its entry is not renewed again
      have hself : renewed results (result.1, result.2) = result := renewed_of_forall_ne hother
      change ((s.add result.1 result.2).addAll results).entries = _
      rw [ih _ different.2, hnew]
      by_cases h : s.contains result.1 = true
      · rw [add, if_pos h, List.filter_cons_of_neg (by simp [h]), List.map_map]
        congr 1
        apply List.map_congr_left
        intro entry _
        rw [Function.comp_apply, renewed_cons]
        by_cases heq : entry.1.handle = result.1.handle
        · rw [if_pos (beq_iff_eq.mpr heq), if_pos heq.symm, hself]
        · rw [if_neg (mt beq_iff_eq.mp heq), if_neg (Ne.symm heq)]
      · rw [add, if_neg h, List.filter_cons_of_pos (by simp [h]), List.map_append, List.map_singleton,
          hself, List.append_assoc, List.singleton_append]
        congr 1
        apply List.map_congr_left
        intro entry hentry
        rw [renewed_cons, if_neg]
        intro heq
        exact h (List.any_eq_true.mpr ⟨entry, hentry, beq_iff_eq.mpr heq.symm⟩)

end RankingEval.Store
