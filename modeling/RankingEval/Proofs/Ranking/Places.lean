/-
# The exact area by the places of the positives

Items that are not positive gain nothing, so that the area of a ranking without scores depends on nothing
but the places at which its positives stand. This module lists the places, counted from one, and gives the
area as a sum over them. The positive at place `t` that is the `k`-th one found adds `(k - 1) / (t - 1)`,
the precision before it, and `k / t`, the precision behind it. The first positive has no precision before
it, and at the very front it adds nothing.
-/

import Mathlib
import RankingEval.Proofs.Ranking.ExactArea

namespace RankingEval.Ranking

open RankingEval.Number

/-! ## Places -/

/-- The places of the positives behind `seen` items, where `true` stands for a positive. -/
def placesFrom : ℕ → List Bool → List ℕ
  | _, [] => []
  | seen, true :: rest => (seen + 1) :: placesFrom (seen + 1) rest
  | seen, false :: rest => placesFrom (seen + 1) rest

theorem mem_placesFrom {seen t : ℕ} {flags : List Bool} :
    t ∈ placesFrom seen flags ↔ ∃ i, flags[i]? = some true ∧ t = seen + i + 1 := by
  induction flags generalizing seen with
  | nil => simp [placesFrom]
  | cons flag flags ih =>
      have hlater : t ∈ placesFrom (seen + 1) flags ↔
          ∃ i, flags[i]? = some true ∧ t = seen + (i + 1) + 1 := by
        rw [ih]
        apply exists_congr
        intro i
        rw [show seen + 1 + i + 1 = seen + (i + 1) + 1 by omega]
      constructor
      · intro h
        cases flag with
        | false =>
            obtain ⟨i, hi, rfl⟩ := hlater.mp h
            exact ⟨i + 1, hi, rfl⟩
        | true =>
            rcases List.mem_cons.mp h with rfl | h
            · exact ⟨0, rfl, rfl⟩
            · obtain ⟨i, hi, rfl⟩ := hlater.mp h
              exact ⟨i + 1, hi, rfl⟩
      · rintro ⟨i, hi, ht⟩
        cases i with
        | zero =>
            obtain rfl : flag = true := by simpa using hi
            subst ht
            exact List.mem_cons_self
        | succ i =>
            have h := hlater.mpr ⟨i, hi, ht⟩
            cases flag with
            | false => exact h
            | true => exact List.mem_cons_of_mem _ h

/-- Places are listed in order. -/
theorem pairwise_placesFrom (seen : ℕ) (flags : List Bool) :
    (placesFrom seen flags).Pairwise (· < ·) := by
  induction flags generalizing seen with
  | nil => exact List.Pairwise.nil
  | cons flag flags ih =>
      cases flag with
      | false => exact ih (seen + 1)
      | true =>
          refine List.Pairwise.cons ?_ (ih (seen + 1))
          intro t ht
          obtain ⟨i, -, rfl⟩ := mem_placesFrom.mp ht
          omega

theorem length_placesFrom (seen : ℕ) (flags : List Bool) :
    (placesFrom seen flags).length = flags.count true := by
  induction flags generalizing seen with
  | nil => rfl
  | cons flag flags ih =>
      cases flag with
      | false => rw [placesFrom, ih, List.count_cons_of_ne Bool.false_ne_true]
      | true => rw [placesFrom, List.length_cons, ih, List.count_cons_self]

/-- Further items have further places. -/
theorem placesFrom_append (seen : ℕ) (front back : List Bool) :
    placesFrom seen (front ++ back) =
      placesFrom seen front ++ placesFrom (seen + front.length) back := by
  induction front generalizing seen with
  | nil => simp [placesFrom]
  | cons flag front ih =>
      have hseen : seen + 1 + front.length = seen + (front.length + 1) := by omega
      cases flag <;> simp [placesFrom, ih, hseen]

/-- Items that are not positive have no place. -/
theorem placesFrom_eq_nil {seen : ℕ} {flags : List Bool} (h : ∀ flag ∈ flags, flag = false) :
    placesFrom seen flags = [] := by
  apply List.eq_nil_of_length_eq_zero
  rw [length_placesFrom, List.count_eq_zero]
  intro hmem
  exact Bool.false_ne_true (h true hmem).symm

/-! ## The area -/

/-- The gains of positives are those at their places. -/
theorem gains_eq_sum (found seen : ℕ) (flags : List Bool) :
    gains found seen flags = ∑ k ∈ Finset.range (placesFrom seen flags).length,
      gain (found + k) ((placesFrom seen flags).getD k 0 - 1) := by
  induction flags generalizing found seen with
  | nil => rfl
  | cons flag flags ih =>
      cases flag with
      | false => exact ih found (seen + 1)
      | true =>
          rw [gains, ih, placesFrom, List.length_cons, Finset.sum_range_succ', add_comm]
          congr 1
          apply Finset.sum_congr rfl
          intro k _
          rw [List.getD_cons_succ, Nat.add_assoc, Nat.add_comm 1 k]

/-- The area of a ranking whose positives stand at the given places: the sum of the precisions before and
behind every positive, over twice the number of positives. -/
def areaByPlaces (places : List ℕ) : ℚ :=
  1 / (2 * places.length) *
    ((if 1 < places.getD 0 0 then 1 / (places.getD 0 0 : ℚ) else 0) +
      ∑ k ∈ Finset.Ico 1 places.length,
        ((k : ℚ) / (places.getD k 0 - 1) + (k + 1) / places.getD k 0))

/-- The gain of the first positive is the precision behind it, unless it stands at the very front. -/
theorem gain_zero_left {t : ℕ} (ht : 0 < t) :
    gain 0 (t - 1) = if 1 < t then 1 / (t : ℚ) else 0 := by
  obtain ⟨seen, rfl⟩ := Nat.exists_eq_succ_of_ne_zero ht.ne'
  by_cases hseen : seen = 0
  · subst hseen
    rfl
  · rw [if_pos (by omega), gain, Nat.succ_sub_one, if_neg hseen, Nat.cast_succ]
    ring

/-- The gain of a later positive is the sum of the precisions before and behind it. -/
theorem gain_of_one_lt {found t : ℕ} (ht : 1 < t) :
    gain found (t - 1) = (found : ℚ) / (t - 1) + (found + 1) / t := by
  rw [gain, if_neg (by omega), Nat.cast_sub ht.le]
  norm_num

/-- The places of some positives bring the gains into closed form. -/
theorem gains_div_eq_areaByPlaces {flags : List Bool} (h : 0 < flags.count true) :
    gains 0 0 flags / (2 * flags.count true) = areaByPlaces (placesFrom 0 flags) := by
  have hordered := pairwise_placesFrom 0 flags
  have hplace : ∀ t ∈ placesFrom 0 flags, 0 < t := by
    intro t ht
    obtain ⟨i, -, rfl⟩ := mem_placesFrom.mp ht
    omega
  rw [gains_eq_sum, areaByPlaces, ← length_placesFrom 0 flags]
  rw [← length_placesFrom 0 flags] at h
  generalize placesFrom 0 flags = places at *
  have hlater : ∀ k ∈ Finset.Ico 1 places.length, 1 < places.getD k 0 := by
    intro k hk
    obtain ⟨hone, hk⟩ := Finset.mem_Ico.mp hk
    rw [List.getD_eq_getElem _ _ hk]
    have hfirst := hplace places[0] (List.getElem_mem h)
    have hstep := List.pairwise_iff_getElem.mp hordered 0 k h hk hone
    omega
  have hfirst : 0 < places.getD 0 0 := by
    rw [List.getD_eq_getElem _ _ h]
    exact hplace _ (List.getElem_mem h)
  have hsum : ∑ k ∈ Finset.range places.length, gain (0 + k) (places.getD k 0 - 1) =
      (if 1 < places.getD 0 0 then 1 / (places.getD 0 0 : ℚ) else 0) +
        ∑ k ∈ Finset.Ico 1 places.length,
          ((k : ℚ) / (places.getD k 0 - 1) + (k + 1) / places.getD k 0) := by
    rw [Finset.range_eq_Ico, Finset.sum_eq_sum_Ico_succ_bot h, Nat.add_zero, gain_zero_left hfirst]
    congr 1
    apply Finset.sum_congr rfl
    intro k hk
    rw [Nat.zero_add, gain_of_one_lt (hlater k hk)]
  rw [hsum]
  ring

variable {positives : Positives} {ids : List Identity}

/-- The places of a ranking at which an identifier is positive, counted from one. -/
def places (positives : Positives) (ids : List Identity) : List ℕ := placesFrom 0 (ids.map positives.has)

/-- A ranking that finds all positives has one place for each of them. -/
theorem FindsAll.length_places (h : FindsAll positives ids) :
    (places positives ids).length = positives.count := by
  rw [places, length_placesFrom, h.count_has]

/-- At a place stands an identifier that is positive. -/
theorem FindsAll.mem_places (h : FindsAll positives ids) {t : ℕ} :
    t ∈ places positives ids ↔
      ∃ i id, ids[i]? = some id ∧ positives.holds id = .ok true ∧ t = i + 1 := by
  simp only [places, mem_placesFrom, List.getElem?_map, Option.map_eq_some_iff, Nat.zero_add]
  constructor
  · rintro ⟨i, ⟨id, hid, hhas⟩, ht⟩
    obtain ⟨held, hheld⟩ := h.held id (List.mem_of_getElem? hid)
    rw [Positives.has_of_holds hheld] at hhas
    exact ⟨i, id, hid, hhas ▸ hheld, ht⟩
  · rintro ⟨i, id, hid, hheld, ht⟩
    exact ⟨i, ⟨id, hid, Positives.has_of_holds hheld⟩, ht⟩

theorem FindsAll.exactArea_eq_areaByPlaces (h : FindsAll positives ids) (expected : Datum) :
    exactArea expected positives ids = .ok (areaByPlaces (places positives ids)) := by
  have hcount : 0 < (ids.map positives.has).count true := by
    rw [h.count_has]
    exact Nat.pos_of_ne_zero h.count_ne_zero
  rw [h.exactArea_eq expected, places, ← gains_div_eq_areaByPlaces hcount, h.count_has]

/-- A ranking that finds all positives still does when items that are not positive follow. -/
theorem FindsAll.append (h : FindsAll positives ids) {back : List Identity}
    (hback : ∀ id ∈ back, positives.holds id = .ok false) : FindsAll positives (ids ++ back) where
  count_ne_zero := h.count_ne_zero
  held id hid := by
    rcases List.mem_append.mp hid with hid | hid
    · exact h.held id hid
    · exact ⟨false, hback id hid⟩
  count_has := by
    rw [List.map_append, List.count_append, h.count_has, Nat.add_eq_left, List.count_eq_zero]
    intro htrue
    obtain ⟨id, hid, hhas⟩ := List.mem_map.mp htrue
    rw [Positives.has_of_holds (hback id hid)] at hhas
    exact Bool.false_ne_true hhas

/-- Items that are not positive and come last leave the places as they are. -/
theorem places_append {back : List Identity} (hback : ∀ id ∈ back, positives.holds id = .ok false) :
    places positives (ids ++ back) = places positives ids := by
  have hnone : placesFrom (0 + (ids.map positives.has).length) (back.map positives.has) = [] := by
    apply placesFrom_eq_nil
    intro flag hflag
    obtain ⟨id, hid, rfl⟩ := List.mem_map.mp hflag
    exact Positives.has_of_holds (hback id hid)
  rw [places, List.map_append, placesFrom_append, hnone, List.append_nil, places]

/-- The exact area of a ranking without scores in closed form. A ranking that finds all positives has its
positives at as many places `t₁ < t₂ < ⋯` as there are positives, and its area is the sum over these places
that `areaByPlaces` takes. Items that are not positive and come last do not change it. -/
theorem exactArea_eq_closed_form (expected : Datum) (all : FindsAll positives ids) :
    exactArea expected positives ids = .ok (areaByPlaces (places positives ids)) ∧
      (places positives ids).length = positives.count ∧
      (places positives ids).Pairwise (· < ·) ∧
      (∀ t, t ∈ places positives ids ↔
        ∃ i id, ids[i]? = some id ∧ positives.holds id = .ok true ∧ t = i + 1) ∧
      ∀ (others : Datum) (back : List Identity), (∀ id ∈ back, positives.holds id = .ok false) →
        exactArea others positives (ids ++ back) = exactArea expected positives ids := by
  refine ⟨all.exactArea_eq_areaByPlaces expected, all.length_places, pairwise_placesFrom _ _,
    fun t => all.mem_places, ?_⟩
  intro others back hback
  rw [(all.append hback).exactArea_eq_areaByPlaces, places_append hback,
    all.exactArea_eq_areaByPlaces]

/-- Of five items the second and the fourth are positive, so that the area is a quarter of
`1 / 2 + (1 / 3 + 2 / 4)`. -/
theorem exactArea_second_and_fourth :
    exactArea (.int 5) (.set [.text "p", .text "q"] 0)
      [.keyed (.text "a"), .keyed (.text "q"), .keyed (.text "b"), .keyed (.text "p"),
        .keyed (.text "c")] = .ok (1 / 3) := by
  have cover : Covers [.text "p", .text "q"]
      [.keyed (.text "a"), .keyed (.text "q"), .keyed (.text "b"), .keyed (.text "p"),
        .keyed (.text "c")] := by
    refine ⟨by simp, by decide, by decide, ?_, ?_⟩
    · intro id hid
      simp only [List.mem_cons, List.not_mem_nil, or_false] at hid
      rcases hid with rfl | rfl | rfl | rfl | rfl <;> exact ⟨_, rfl⟩
    · intro k hk
      simp only [List.mem_cons, List.not_mem_nil, or_false] at hk
      rcases hk with rfl | rfl <;> simp
  obtain ⟨harea, -⟩ := exactArea_eq_closed_form (.int 5) cover.findsAll
  rw [harea]
  change Except.ok (areaByPlaces [2, 4]) = _
  norm_num [areaByPlaces]

end RankingEval.Ranking
