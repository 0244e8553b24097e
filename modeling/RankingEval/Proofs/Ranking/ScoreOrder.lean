/-
# Rows in the order of their scores

Scores are sorted by their standings, or by the reverse of these, and either way the sort keeps rows of
equal score in the order in which they were given and puts rows without a score at the end. No more than
the comparisons of scores enters into it. So a change of the scores that respects these comparisons, or
turns them around together with the direction of the sort, moves no row.
-/

import Mathlib
import RankingEval.Proofs.Number.Order
import RankingEval.Ranking.Sorted

namespace RankingEval.Ranking

open RankingEval.Number

/-- In the other direction scores are in order the other way around. -/
theorem inOrder_not (ascending : Bool) (x y : Float) :
    inOrder (!ascending) x y = inOrder ascending y x := by
  cases ascending <;> simp [inOrder]

section Ranks

variable {β γ : Type} [LinearOrder γ] {ascending : Bool} {rank : Float → γ}
  {rows : List (β × Float)}

/-- Ranks of doubles that agree with the order by which scores are sorted, NaN aside. -/
structure Ranks (ascending : Bool) (rank : Float → γ) : Prop where
  /-- A score stands before another when its rank is no higher. -/
  inOrder_iff : ∀ {x y : Float}, x.isNaN = false → y.isNaN = false →
    (inOrder ascending x y = true ↔ rank x ≤ rank y)
  /-- Scores are equal when their ranks are. -/
  beq_iff : ∀ {x y : Float}, x.isNaN = false → y.isNaN = false →
    ((x == y) = true ↔ rank x = rank y)

/-- Standings rank scores from the lowest on. -/
theorem ranks_standing : Ranks true standing where
  inOrder_iff hx hy := by
    rw [inOrder, if_pos rfl, decide_eq_true_eq, float_le_iff]
    simp only [hx, hy, true_and]
  beq_iff hx hy := by
    rw [float_beq_iff]
    simp only [hx, hy, true_and]

/-- Standings in reverse rank scores from the highest on. -/
theorem ranks_reverse_standing : Ranks false fun x => OrderDual.toDual (standing x) where
  inOrder_iff hx hy := by
    rw [inOrder, if_neg Bool.false_ne_true, decide_eq_true_eq, float_le_iff, OrderDual.toDual_le_toDual]
    simp only [hx, hy, true_and]
  beq_iff hx hy := by
    rw [float_beq_iff]
    simp only [hx, hy, true_and, OrderDual.toDual_inj]

/-- Sorting rows rearranges them. -/
theorem sortedByScore_perm (ascending : Bool) (rows : List (β × Float)) :
    (sortedByScore ascending rows).Perm rows := by
  have hsplit := List.filter_append_perm (fun row : β × Float => !row.2.isNaN) rows
  simp only [Bool.not_not] at hsplit
  exact ((List.mergeSort_perm _ _).append_right _).trans hsplit

/-! ## The rows with a score -/

/-- The rows that have a score. -/
def scored (rows : List (β × Float)) : List (β × Float) := rows.filter fun row => !row.2.isNaN

theorem isNaN_of_mem_scored {row : β × Float} (h : row ∈ scored rows) : row.2.isNaN = false := by
  simpa using (List.mem_filter.mp h).2

/-- The comparison by rank, which is transitive and total. -/
def rankLE (rank : Float → γ) (a b : β × Float) : Bool := decide (rank a.2 ≤ rank b.2)

theorem rankLE_trans (a b c : β × Float) (hab : rankLE rank a b = true)
    (hbc : rankLE rank b c = true) : rankLE rank a c = true := by
  rw [rankLE, decide_eq_true_eq] at hab hbc ⊢
  exact hab.trans hbc

theorem rankLE_total (a b : β × Float) : (rankLE rank a b || rankLE rank b a) = true := by
  simpa [rankLE] using le_total (rank a.2) (rank b.2)

/-- On rows that have a score the comparison of scores is that of ranks. -/
theorem mergeSort_scored (hranks : Ranks ascending rank) (rows : List (β × Float)) :
    (scored rows).mergeSort (fun a b => inOrder ascending a.2 b.2) =
      (scored rows).mergeSort (rankLE rank) := by
  have hsame := @List.map_mergeSort _ _ (fun a b : β × Float => inOrder ascending a.2 b.2)
    (rankLE rank) id (scored rows) fun a ha b hb => by
      rw [Bool.eq_iff_iff, rankLE, decide_eq_true_eq]
      exact hranks.inOrder_iff (isNaN_of_mem_scored ha) (isNaN_of_mem_scored hb)
  rw [List.map_id, List.map_id] at hsame
  exact hsame

/-- Of two rows in sorted order, the first has a score if the second has one, and its rank is no
higher. -/
theorem sortedByScore_pairwise (hranks : Ranks ascending rank) (rows : List (β × Float)) :
    (sortedByScore ascending rows).Pairwise fun a b =>
      b.2.isNaN = false → a.2.isNaN = false ∧ rank a.2 ≤ rank b.2 := by
  have hsorted : ((scored rows).mergeSort (rankLE rank)).Pairwise fun a b =>
      rankLE rank a b = true :=
    List.pairwise_mergeSort rankLE_trans rankLE_total _
  have hlast : ∀ b ∈ rows.filter (fun row => row.2.isNaN), ¬b.2.isNaN = false := by
    intro b hb
    simpa using (List.mem_filter.mp hb).2
  rw [sortedByScore, List.pairwise_append]
  refine ⟨?_, ?_, ?_⟩
  · change ((scored rows).mergeSort _).Pairwise _
    rw [mergeSort_scored hranks]
    apply hsorted.imp_of_mem
    intro a b ha _ hab _
    rw [List.mem_mergeSort] at ha
    exact ⟨isNaN_of_mem_scored ha, of_decide_eq_true hab⟩
  · apply List.pairwise_of_forall_mem_list
    intro a _ b hb hnumber
    exact absurd hnumber (hlast b hb)
  · intro a _ b hb hnumber
    exact absurd hnumber (hlast b hb)

/-- Of two rows in sorted order, the first has a score if the second has one, and the two scores are in
order. -/
theorem inOrder_sortedByScore (hranks : Ranks ascending rank) (rows : List (β × Float)) :
    (sortedByScore ascending rows).Pairwise fun a b =>
      b.2.isNaN = false → a.2.isNaN = false ∧ inOrder ascending a.2 b.2 = true := by
  apply (sortedByScore_pairwise hranks rows).imp
  intro a b hab hb
  obtain ⟨ha, hrank⟩ := hab hb
  exact ⟨ha, (hranks.inOrder_iff ha hb).mpr hrank⟩

/-- Rows all of which have a score are sorted by rank. -/
theorem sortedByScore_pairwise_of_scored (hranks : Ranks ascending rank)
    (hnumbers : ∀ row ∈ rows, row.2.isNaN = false) :
    (sortedByScore ascending rows).Pairwise fun a b => rank a.2 ≤ rank b.2 := by
  apply (sortedByScore_pairwise hranks rows).imp_of_mem
  intro a b _ hb hab
  exact (hab (hnumbers b ((sortedByScore_perm ascending rows).mem_iff.mp hb))).2

/-! ## Ties -/

/-- Rows of equal score keep their order. -/
theorem filter_beq_sortedByScore (hranks : Ranks ascending rank) (rows : List (β × Float)) (x : Float) :
    (sortedByScore ascending rows).filter (fun row => row.2 == x) =
      rows.filter fun row => row.2 == x := by
  have hnumber : ∀ row : β × Float, (row.2 == x) = true → row.2.isNaN = false := by
    intro row hrow
    exact (float_beq_iff.mp hrow).1
  have hscored : rows.filter (fun row => row.2 == x) = (scored rows).filter fun row => row.2 == x := by
    rw [scored, List.filter_filter]
    apply List.filter_congr
    intro row _
    rw [Bool.eq_iff_iff, Bool.and_eq_true, Bool.not_eq_true']
    exact ⟨fun h => ⟨h, hnumber row h⟩, And.left⟩
  -- rows of equal score are in order before the sort, and the sort keeps what is in order
  have hties : ((scored rows).filter fun row => row.2 == x).Pairwise fun a b =>
      rankLE rank a b = true := by
    apply List.pairwise_of_forall_mem_list
    intro a ha b hb
    have ha := (List.mem_filter.mp ha).2
    have hb := (List.mem_filter.mp hb).2
    have hx := (float_beq_iff.mp ha).2.1
    have hrank : rank a.2 = rank b.2 :=
      ((hranks.beq_iff (hnumber a ha) hx).mp ha).trans ((hranks.beq_iff (hnumber b hb) hx).mp hb).symm
    rw [rankLE, hrank]
    exact decide_eq_true le_rfl
  have hkept := List.sublist_mergeSort rankLE_trans rankLE_total hties List.filter_sublist
  rw [← mergeSort_scored hranks] at hkept
  have hsub := (hkept.trans (List.sublist_append_left _ (rows.filter fun row => row.2.isNaN))).filter
    fun row => row.2 == x
  simp only [List.filter_filter, Bool.and_self] at hsub
  rw [← hscored] at hsub
  exact (hsub.eq_of_length ((sortedByScore_perm ascending rows).filter _).length_eq.symm).symm

omit [LinearOrder γ] in
/-- Rows without a score keep their order. -/
theorem filter_isNaN_sortedByScore (ascending : Bool) (rows : List (β × Float)) :
    (sortedByScore ascending rows).filter (fun row => row.2.isNaN) =
      rows.filter fun row => row.2.isNaN := by
  have hnone : ((scored rows).mergeSort fun a b => inOrder ascending a.2 b.2).filter
      (fun row => row.2.isNaN) = [] := by
    rw [List.filter_eq_nil_iff]
    intro row hrow
    rw [List.mem_mergeSort] at hrow
    rw [isNaN_of_mem_scored hrow]
    exact Bool.false_ne_true
  change (((scored rows).mergeSort fun a b => inOrder ascending a.2 b.2) ++ _).filter _ = _
  rw [List.filter_append, hnone, List.nil_append, List.filter_filter]
  simp only [Bool.and_self]

end Ranks

/-! ## Other scores -/

variable {β : Type} {ascending direction : Bool} {f : Float → Float}

/-- When other scores are compared in another direction as the given ones are in theirs, the sort moves
rows to the same places. Only the scores of the rows are compared, so nothing is asked of the rest. -/
theorem sortedByScore_map {rows : List (β × Float)} (hnan : ∀ row ∈ rows, (f row.2).isNaN = row.2.isNaN)
    (horder : ∀ a ∈ rows, ∀ b ∈ rows, a.2.isNaN = false → b.2.isNaN = false →
      inOrder direction (f a.2) (f b.2) = inOrder ascending a.2 b.2) :
    sortedByScore direction (rows.map (Prod.map id f)) =
      (sortedByScore ascending rows).map (Prod.map id f) := by
  have hscored : scored (rows.map (Prod.map id f)) = (scored rows).map (Prod.map id f) := by
    rw [scored, List.filter_map]
    congr 1
    apply List.filter_congr
    intro row hrow
    exact congrArg (!·) (hnan row hrow)
  have hunscored : (rows.map (Prod.map id f)).filter (fun row => row.2.isNaN) =
      (rows.filter fun row => row.2.isNaN).map (Prod.map id f) := by
    rw [List.filter_map]
    congr 1
    apply List.filter_congr
    intro row hrow
    exact hnan row hrow
  change (scored (rows.map (Prod.map id f))).mergeSort _ ++ _ = _
  rw [hscored, hunscored, sortedByScore, List.map_append]
  congr 1
  symm
  apply List.map_mergeSort
  intro a ha b hb
  exact (horder a (List.mem_of_mem_filter ha) b (List.mem_of_mem_filter hb) (isNaN_of_mem_scored ha)
    (isNaN_of_mem_scored hb)).symm

end RankingEval.Ranking
