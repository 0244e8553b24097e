/-
# Better rankings and their areas

Exchanging a positive with another item right in front of it lets it be found sooner, at a higher
precision, so that its gain does not become less. The front of a ranking is an exception: a positive at
the very front has no gain at all, because no point stands in front of it. With two positives or more the
ranking that lists them first has the largest area nevertheless; with one its area is zero.
-/

import Mathlib
import RankingEval.Proofs.Ranking.ExactArea

namespace RankingEval.Ranking

open RankingEval.Number

/-! ## One gain -/

theorem gain_zero_right (found : ℕ) : gain found 0 = 0 := by
  rw [gain, if_pos rfl]

theorem gain_of_pos {found seen : ℕ} (h : 0 < seen) :
    gain found seen = (found : ℚ) / seen + ((found : ℚ) + 1) / (seen + 1) := by
  rw [gain, if_neg h.ne']

/-- The later a positive is found, the less it gains, except for the very front. -/
theorem gain_le_gain (found : ℕ) {seen later : ℕ} (hseen : 0 < seen) (h : seen ≤ later) :
    gain found later ≤ gain found seen := by
  have hcast : (0 : ℚ) < seen := by exact_mod_cast hseen
  have hle : (seen : ℚ) ≤ later := by exact_mod_cast h
  rw [gain_of_pos hseen, gain_of_pos (Nat.lt_of_lt_of_le hseen h)]
  apply add_le_add
  · exact div_le_div_of_nonneg_left (Nat.cast_nonneg found) hcast hle
  · apply div_le_div_of_nonneg_left
    · positivity
    · positivity
    · linarith

/-- A positive behind nothing but positives gains as much as any can. -/
theorem gain_self {found : ℕ} (h : 0 < found) : gain found found = 2 := by
  have hcast : (found : ℚ) ≠ 0 := by exact_mod_cast h.ne'
  have hsucc : (found : ℚ) + 1 ≠ 0 := by positivity
  rw [gain_of_pos h, div_self hcast, div_self hsucc]
  norm_num

/-- No positive gains more than two. -/
theorem gain_le_two {found seen : ℕ} (h : found ≤ seen) : gain found seen ≤ 2 := by
  rcases Nat.eq_zero_or_pos found with rfl | hfound
  · rcases Nat.eq_zero_or_pos seen with rfl | hseen
    · rw [gain_zero_right]
      norm_num
    · have hone : gain 0 seen ≤ gain 0 1 := gain_le_gain 0 (by norm_num) hseen
      apply hone.trans
      norm_num [gain]
  · exact (gain_le_gain found hfound h).trans (gain_self hfound).le

/-! ## All gains -/

/-- Exchanging a positive with the item right in front of it does not lower the gains, unless that item
stands at the very front. -/
theorem gains_exchange {front : List Bool} (hfront : front ≠ []) (back : List Bool) :
    gains 0 0 (front ++ false :: true :: back) ≤ gains 0 0 (front ++ true :: false :: back) := by
  have hpos : 0 < front.length := List.length_pos_of_ne_nil hfront
  rw [gains_append, gains_append, Nat.zero_add, Nat.zero_add]
  simp only [gains]
  have hgain := gain_le_gain (front.count true) hpos (Nat.le_succ front.length)
  linarith

/-- At the very front the exchange takes the gain of the positive away. -/
theorem gains_exchange_front (back : List Bool) :
    gains 0 0 (true :: false :: back) = gains 0 0 (false :: true :: back) - 1 / 2 := by
  have hone : gain 0 1 = 1 / 2 := by norm_num [gain]
  simp only [gains, gain_zero_right, Nat.zero_add, hone]
  ring

theorem gains_le {found seen : ℕ} (h : found ≤ seen) (flags : List Bool) :
    gains found seen flags ≤ 2 * flags.count true := by
  induction flags generalizing found seen with
  | nil => simp [gains]
  | cons flag flags ih =>
      cases flag with
      | false =>
          rw [gains, List.count_cons_of_ne Bool.false_ne_true]
          exact ih (Nat.le_succ_of_le h)
      | true =>
          have hgain := gain_le_two h
          have hrest := @ih (found + 1) (seen + 1) (Nat.succ_le_succ h)
          rw [gains, List.count_cons_self, Nat.cast_add_one]
          linarith

/-- When the first positive did not stand at the very front, the second one falls short of the most that a
positive can gain. -/
theorem gains_one_le {seen : ℕ} (hseen : 2 ≤ seen) {flags : List Bool} (h : 0 < flags.count true) :
    gains 1 seen flags ≤ 7 / 6 + 2 * (flags.count true - 1) := by
  induction flags generalizing seen with
  | nil => cases h
  | cons flag flags ih =>
      cases flag with
      | false =>
          rw [List.count_cons_of_ne Bool.false_ne_true] at h
          rw [gains, List.count_cons_of_ne Bool.false_ne_true]
          exact ih (Nat.le_succ_of_le hseen) h
      | true =>
          have hgain : gain 1 seen ≤ gain 1 2 := gain_le_gain 1 (by norm_num) hseen
          have htwo : gain 1 2 = 7 / 6 := by norm_num [gain]
          have hrest := @gains_le (1 + 1) (seen + 1) (by omega) flags
          rw [gains, List.count_cons_self, Nat.cast_add_one]
          linarith

/-- When an item that is not positive stands at the very front, the first two positives together fall short
of the most that one positive can gain. -/
theorem gains_zero_le {seen : ℕ} (hseen : 1 ≤ seen) {flags : List Bool} (h : 2 ≤ flags.count true) :
    gains 0 seen flags ≤ 5 / 3 + 2 * (flags.count true - 2) := by
  induction flags generalizing seen with
  | nil => cases h
  | cons flag flags ih =>
      cases flag with
      | false =>
          rw [List.count_cons_of_ne Bool.false_ne_true] at h
          rw [gains, List.count_cons_of_ne Bool.false_ne_true]
          exact ih (Nat.le_succ_of_le hseen) h
      | true =>
          rw [List.count_cons_self] at h
          have hgain : gain 0 seen ≤ gain 0 1 := gain_le_gain 0 (by norm_num) hseen
          have hone : gain 0 1 = 1 / 2 := by norm_num [gain]
          have hrest := @gains_one_le (seen + 1) (Nat.succ_le_succ hseen) flags (Nat.lt_of_succ_lt_succ h)
          rw [gains, List.count_cons_self, Nat.cast_add_one]
          linarith

/-- With two positives or more no arrangement gains more than twice the number of positives but one. -/
theorem gains_le_of_two_le {flags : List Bool} (h : 2 ≤ flags.count true) :
    gains 0 0 flags ≤ 2 * (flags.count true - 1) := by
  cases flags with
  | nil => cases h
  | cons flag flags =>
      cases flag with
      | false =>
          rw [List.count_cons_of_ne Bool.false_ne_true] at h
          have hrest := @gains_zero_le 1 (Nat.le_refl 1) flags h
          rw [gains, List.count_cons_of_ne Bool.false_ne_true]
          linarith
      | true =>
          have hrest := @gains_le 1 1 (Nat.le_refl 1) flags
          rw [gains, List.count_cons_self, Nat.cast_add_one, gain_zero_right]
          linarith

/-- Items that are not positive gain nothing. -/
theorem gains_replicate_false (found seen count : ℕ) :
    gains found seen (List.replicate count false) = 0 := by
  induction count generalizing seen with
  | zero => rfl
  | succ count ih =>
      rw [List.replicate_succ, gains]
      exact ih (seen + 1)

/-- Behind nothing but positives every positive gains two. -/
theorem gains_replicate_true {found : ℕ} (hfound : 0 < found) (count : ℕ) :
    gains found found (List.replicate count true) = 2 * count := by
  induction count generalizing found with
  | zero => simp [gains]
  | succ count ih =>
      rw [List.replicate_succ, gains, gain_self hfound, ih (Nat.succ_pos found), Nat.cast_add_one]
      ring

/-- Listing all positives first gains twice their number but one. -/
theorem gains_positives_first {positives : ℕ} (hpositives : 0 < positives) (others : ℕ) :
    gains 0 0 (List.replicate positives true ++ List.replicate others false) =
      2 * (positives - 1) := by
  obtain ⟨rest, rfl⟩ := Nat.exists_eq_succ_of_ne_zero hpositives.ne'
  rw [gains_append, gains_replicate_false, List.replicate_succ, gains, gain_zero_right,
    gains_replicate_true (Nat.succ_pos 0)]
  push_cast
  ring

/-! ## Areas -/

variable {keys : List Key} {ids : List Identity}

/-- The area after an exchange, compared to the area before. -/
theorem Covers.exactArea_exchange (expected : Datum) {front back : List Identity}
    {below above : Identity} (h : Covers keys (front ++ below :: above :: back))
    (hbelow : (Positives.set keys 0).holds below = .ok false)
    (habove : (Positives.set keys 0).holds above = .ok true) :
    ∃ before after,
      exactArea expected (.set keys 0) (front ++ below :: above :: back) = .ok before ∧
      exactArea expected (.set keys 0) (front ++ above :: below :: back) = .ok after ∧
      (front ≠ [] → before ≤ after) ∧ (front = [] → after = before - 1 / (4 * keys.length)) := by
  have hperm : (front ++ below :: above :: back).Perm (front ++ above :: below :: back) :=
    (List.Perm.swap above below back).append_left front
  refine ⟨_, _, h.exactArea_eq expected, (h.of_perm hperm).exactArea_eq expected, ?_, ?_⟩
  · intro hfront
    apply div_le_div_of_nonneg_right
    · simp only [List.map_append, List.map_cons, Positives.has_of_holds hbelow, Positives.has_of_holds habove]
      apply gains_exchange
      simpa using hfront
    · positivity
  · rintro rfl
    simp only [List.nil_append, List.map_cons, Positives.has_of_holds hbelow, Positives.has_of_holds habove]
    rw [gains_exchange_front]
    ring

/-- The area of the ranking that lists all positives first, compared to that of another arrangement. -/
theorem Covers.exactArea_positives_first (expected : Datum) (h : Covers keys ids)
    {first rest : List Identity} (hperm : ids.Perm (first ++ rest))
    (hfirst : ∀ id ∈ first, (Positives.set keys 0).holds id = .ok true)
    (hrest : ∀ id ∈ rest, (Positives.set keys 0).holds id = .ok false) :
    ∃ area best,
      exactArea expected (.set keys 0) ids = .ok area ∧
      exactArea expected (.set keys 0) (first ++ rest) = .ok best ∧
      (2 ≤ keys.length → area ≤ best) ∧ (keys.length = 1 → best = 0) := by
  have hcover := h.of_perm hperm
  have hflags : (first ++ rest).map (Positives.set keys 0).has =
      List.replicate first.length true ++ List.replicate rest.length false := by
    rw [List.map_append]
    congr 1
    · simpa [List.eq_replicate_iff] using fun id hid => Positives.has_of_holds (hfirst id hid)
    · simpa [List.eq_replicate_iff] using fun id hid => Positives.has_of_holds (hrest id hid)
  have hcount := hcover.count_has
  have hlength : first.length = keys.length := by
    rw [hflags] at hcount
    simpa [List.count_replicate] using hcount
  have hpositives : 0 < keys.length := List.length_pos_of_ne_nil h.keys_ne_nil
  have hbest := hcover.exactArea_eq expected
  rw [hflags, hlength, gains_positives_first hpositives] at hbest
  refine ⟨_, _, h.exactArea_eq expected, hbest, ?_, ?_⟩
  · intro htwo
    apply div_le_div_of_nonneg_right
    · have hall := h.count_has
      rw [← hall] at htwo ⊢
      exact gains_le_of_two_le htwo
    · positivity
  · intro hone
    rw [hone]
    norm_num

/-- A better ranking does not have a smaller area, the very front aside. In a ranking that covers the
positives, exchanging a positive with another item right in front of it does not lower the exact area when
something stands before the two; at the very front it lowers the area by a quarter of the width of a
positive. The ranking that lists all positives first has the largest area among all arrangements if there
are two positives or more, and none if there is one. -/
theorem exactArea_le_of_better (expected : Datum) (cover : Covers keys ids) :
    (∀ front below above back, ids = front ++ below :: above :: back →
      (Positives.set keys 0).holds below = .ok false →
      (Positives.set keys 0).holds above = .ok true →
      ∃ before after,
        exactArea expected (.set keys 0) ids = .ok before ∧
        exactArea expected (.set keys 0) (front ++ above :: below :: back) = .ok after ∧
        (front ≠ [] → before ≤ after) ∧
        (front = [] → after = before - 1 / (4 * keys.length))) ∧
    (∀ first rest, ids.Perm (first ++ rest) →
      (∀ id ∈ first, (Positives.set keys 0).holds id = .ok true) →
      (∀ id ∈ rest, (Positives.set keys 0).holds id = .ok false) →
      ∃ area best,
        exactArea expected (.set keys 0) ids = .ok area ∧
        exactArea expected (.set keys 0) (first ++ rest) = .ok best ∧
        (2 ≤ keys.length → area ≤ best) ∧ (keys.length = 1 → best = 0)) := by
  constructor
  · rintro front below above back rfl hbelow habove
    exact cover.exactArea_exchange expected hbelow habove
  · intro first rest hperm hfirst hrest
    exact cover.exactArea_positives_first expected hperm hfirst hrest

/-- Behind a positive, another one is exchanged with an item that is not positive. -/
theorem exactArea_le_second :
    ∃ before after,
      exactArea (.int 3) (.set [.text "p", .text "q"] 0)
        [.keyed (.text "p"), .keyed (.text "n"), .keyed (.text "q")] = .ok before ∧
      exactArea (.int 3) (.set [.text "p", .text "q"] 0)
        [.keyed (.text "p"), .keyed (.text "q"), .keyed (.text "n")] = .ok after ∧
      before ≤ after := by
  have cover : Covers [.text "p", .text "q"]
      [.keyed (.text "p"), .keyed (.text "n"), .keyed (.text "q")] := by
    refine ⟨by simp, by decide, by decide, ?_, ?_⟩
    · intro id hid
      simp only [List.mem_cons, List.not_mem_nil, or_false] at hid
      rcases hid with rfl | rfl | rfl <;> exact ⟨_, rfl⟩
    · intro k hk
      simp only [List.mem_cons, List.not_mem_nil, or_false] at hk
      rcases hk with rfl | rfl <;> simp
  obtain ⟨before, after, hbefore, hafter, hle, -⟩ := (exactArea_le_of_better (.int 3) cover).1
    [.keyed (.text "p")] (.keyed (.text "n")) (.keyed (.text "q")) [] rfl rfl rfl
  exact ⟨before, after, hbefore, hafter, hle (List.cons_ne_nil _ _)⟩

/-- At the very front the exchange lowers the area, here from a quarter to nothing. -/
theorem exactArea_lt_at_front :
    Covers [.text "p"] [.keyed (.text "n"), .keyed (.text "p")] ∧
      (Positives.set [.text "p"] 0).holds (.keyed (.text "n")) = .ok false ∧
      (Positives.set [.text "p"] 0).holds (.keyed (.text "p")) = .ok true ∧
      exactArea (.int 2) (.set [.text "p"] 0) [.keyed (.text "n"), .keyed (.text "p")] = .ok (1 / 4) ∧
      exactArea (.int 2) (.set [.text "p"] 0) [.keyed (.text "p"), .keyed (.text "n")] = .ok 0 ∧
      (0 : ℚ) < 1 / 4 := by
  have cover : Covers [.text "p"] [.keyed (.text "n"), .keyed (.text "p")] := by
    refine ⟨by simp, by decide, by decide, ?_, ?_⟩
    · intro id hid
      simp only [List.mem_cons, List.not_mem_nil, or_false] at hid
      rcases hid with rfl | rfl <;> exact ⟨_, rfl⟩
    · intro k hk
      rw [List.mem_singleton.mp hk]
      simp
  refine ⟨cover, rfl, rfl, ?_, ?_, by norm_num⟩
  · rw [cover.exactArea_eq]
    change Except.ok (gains 0 0 [false, true] / (2 * (1 : ℕ))) = _
    norm_num [gains, gain]
  · rw [(cover.of_perm (List.Perm.swap _ _ _)).exactArea_eq]
    change Except.ok (gains 0 0 [true, false] / (2 * (1 : ℕ))) = _
    norm_num [gains, gain]

end RankingEval.Ranking
