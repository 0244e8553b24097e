/-
# Sums in blocks

A sum in blocks is a sum of the same items in another order. `AddsUp` says which numbers are sums of some items:
those that are got from them by additions in which every item takes part once, in whatever order and however the
additions are bracketed. Every sum that is taken on the way is of this kind, for doubles as for exact numbers; the
lanes of a sum are several sums that share the items among them (`AddUp`). Exact numbers have one sum only, so that
for them a sum in blocks is the sum from left to right.

That a sum in blocks comes to an end is seen from its rules (`SumsInBlocks`): each list has a sum by them, since
neither half of a long list is empty.
-/

import Mathlib.Algebra.BigOperators.Group.Multiset.Basic
import Mathlib.Algebra.Order.Group.Multiset
import Mathlib.Algebra.Order.Ring.Rat
import RankingEval.Number.BlockedSum

namespace RankingEval.Number

variable {α : Type} [Coordinate α]

/-! ## Sums in any order -/

/-- A number is got from some items by additions in which each of them takes part once. A sum of nothing may start
at zero of either sign. -/
inductive AddsUp : Multiset α → α → Prop where
  /-- Nothing adds up to zero. -/
  | zero : AddsUp 0 0
  /-- Nothing adds up to negative zero. -/
  | negZero : AddsUp 0 (-0)
  /-- An item adds up to itself. -/
  | item (a : α) : AddsUp {a} a
  /-- The sums of two parts are added. -/
  | join {s t : Multiset α} {x y : α} : AddsUp s x → AddsUp t y → AddsUp (s + t) (x + y)

/-- Several numbers share some items among them, and each is a sum of its share. -/
inductive AddUp : Multiset α → List α → Prop where
  /-- No number has a share in nothing. -/
  | nil : AddUp 0 []
  /-- One more number brings its share. -/
  | cons {s t : Multiset α} {x : α} {xs : List α} : AddsUp s x → AddUp t xs → AddUp (s + t) (x :: xs)

/-- Where addition is exact, there is one sum only. -/
theorem AddsUp.value_eq_sum {β : Type} [AddCommMonoid β] (value : α → β) (hzero : value 0 = 0)
    (hnegZero : value (-0) = 0) (hadd : ∀ x y, value (x + y) = value x + value y) {items : List α} {total : α}
    (h : AddsUp ↑items total) : value total = (items.map value).sum := by
  have hsum {s : Multiset α} {x : α} (h : AddsUp s x) : value x = (s.map value).sum := by
    induction h with
    | zero => exact hzero
    | negZero => exact hnegZero
    | item a => rw [Multiset.map_singleton, Multiset.sum_singleton]
    | join _ _ ihs iht => rw [hadd, ihs, iht, Multiset.map_add, Multiset.sum_add]
  rw [hsum h, Multiset.map_coe, Multiset.sum_coe]

namespace AddUp

variable {s t : Multiset α} {xs ys : List α}

/-- Items are sums of themselves. -/
theorem items (items : List α) : AddUp items items := by
  induction items with
  | nil => exact .nil
  | cons a items ih => exact .cons (.item a) ih

theorem append (hs : AddUp s xs) (ht : AddUp t ys) : AddUp (s + t) (xs ++ ys) := by
  induction hs with
  | nil =>
      rw [zero_add]
      exact ht
  | cons hfirst _ ih =>
      rw [add_assoc]
      exact .cons hfirst ih

/-- Two rows of sums are added number by number. -/
theorem zipWith_add (hs : AddUp s xs) (ht : AddUp t ys) (h : xs.length = ys.length) :
    AddUp (s + t) (List.zipWith (· + ·) xs ys) := by
  induction hs generalizing t ys with
  | nil =>
      cases ht with
      | nil => exact .nil
      | cons => cases h
  | cons hx _ ih =>
      cases ht with
      | nil => cases h
      | cons hy hys =>
          rw [add_add_add_comm]
          exact .cons (hx.join hy) (ih hys (Nat.succ.inj h))

theorem joinPairs (h : AddUp s xs) : AddUp s (joinPairs xs) := by
  induction xs using Number.joinPairs.induct generalizing s with
  | case1 a b rest ih =>
      cases h with
      | cons ha h =>
          cases h with
          | cons hb hrest =>
              rw [← add_assoc]
              exact .cons (ha.join hb) (ih hrest)
  | case2 rest hrest =>
      rw [Number.joinPairs]
      · exact h
      · exact hrest

/-- Sums that are added from left to right make one sum of all items. -/
theorem leftSum (h : AddUp s xs) : AddsUp s (leftSum xs) := by
  have hfrom {r : Multiset α} {start : α} (hstart : AddsUp r start) :
      AddsUp (r + s) (xs.foldl (· + ·) start) := by
    induction h generalizing r start with
    | nil =>
        rw [add_zero]
        exact hstart
    | cons hfirst _ ih =>
        rw [← add_assoc]
        exact ih (hstart.join hfirst)
  rw [← zero_add s]
  exact hfrom .negZero

end AddUp

/-! ## The sums that are taken in blocks -/

theorem addsUp_leftSum (items : List α) : AddsUp ↑items (leftSum items) := (AddUp.items items).leftSum

/-- Groups of eight go to the lanes, and the items left over stay: none is dropped, and none is taken twice. -/
theorem exists_addUp_fillLanes {s : Multiset α} {lanes : List α} (items : List α) (hlanes : AddUp s lanes)
    (h : lanes.length = 8) :
    ∃ t : Multiset α, AddUp t (fillLanes lanes items).1 ∧ t + (fillLanes lanes items).2 = s + items := by
  induction lanes, items using fillLanes.induct generalizing s with
  | case1 lanes items hshort =>
      rw [fillLanes, if_pos hshort]
      exact ⟨s, hlanes, rfl⟩
  | case2 lanes items hlong ih =>
      have hgroup : lanes.length = (items.take 8).length := by
        rw [List.length_take]
        omega
      have hlength : (List.zipWith (· + ·) lanes (items.take 8)).length = 8 := by
        rw [List.length_zipWith, ← hgroup, h, Nat.min_self]
      obtain ⟨t, ht, htotal⟩ := ih (hlanes.zipWith_add (.items (items.take 8)) hgroup) hlength
      rw [fillLanes, if_neg hlong]
      refine ⟨t, ht, htotal.trans ?_⟩
      rw [add_assoc, Multiset.coe_add, List.take_append_drop]

theorem addsUp_laneSum {items : List α} (h : 8 ≤ items.length) : AddsUp ↑items (laneSum items) := by
  have hlanes : (items.take 8).length = 8 := by
    rw [List.length_take]
    omega
  obtain ⟨t, ht, htotal⟩ := exists_addUp_fillLanes (items.drop 8) (.items (items.take 8)) hlanes
  have hsum := (ht.joinPairs.joinPairs.joinPairs.append (.items (fillLanes (items.take 8) (items.drop 8)).2)).leftSum
  rwa [htotal, Multiset.coe_add, List.take_append_drop] at hsum

/-- Where more than 128 items are divided, both parts are shorter and neither is empty. -/
theorem splitPoint_between {n : ℕ} (h : 128 < n) : 0 < splitPoint n ∧ splitPoint n < n := by
  rw [splitPoint]
  omega

theorem addsUp_pairwiseSum (items : List α) : AddsUp ↑items (pairwiseSum items) := by
  induction items using pairwiseSum.induct with
  | case1 items hshort =>
      rw [pairwiseSum, if_pos hshort]
      exact addsUp_leftSum items
  | case2 items hshort hlanes =>
      rw [pairwiseSum, if_neg hshort, if_pos hlanes]
      exact addsUp_laneSum (not_lt.mp hshort)
  | case3 items hshort hlanes ihfront ihback =>
      rw [pairwiseSum, if_neg hshort, if_neg hlanes]
      have hsum := ihfront.join ihback
      rwa [Multiset.coe_add, List.take_append_drop] at hsum

theorem addsUp_blockedSum (items : List α) : AddsUp ↑items (blockedSum items) := by
  have hsum := AddsUp.zero.join (addsUp_pairwiseSum items)
  rwa [zero_add] at hsum

/-- The rules of summation in blocks. A total that a list has by them is reached after finitely many divisions. -/
inductive SumsInBlocks : List α → α → Prop where
  /-- Fewer than eight items are added from left to right. -/
  | short {items : List α} : items.length < 8 → SumsInBlocks items (leftSum items)
  /-- Up to 128 items are added in eight lanes. -/
  | lanes {items : List α} : 8 ≤ items.length → items.length ≤ 128 → SumsInBlocks items (laneSum items)
  /-- More items are divided, and the totals of both parts are added. -/
  | halves {items : List α} {front back : α} : 128 < items.length →
      SumsInBlocks (items.take (splitPoint items.length)) front →
      SumsInBlocks (items.drop (splitPoint items.length)) back → SumsInBlocks items (front + back)

/-- Every list has a total by the rules. -/
theorem sumsInBlocks_pairwiseSum (items : List α) : SumsInBlocks items (pairwiseSum items) := by
  induction items using pairwiseSum.induct with
  | case1 items hshort =>
      rw [pairwiseSum, if_pos hshort]
      exact .short hshort
  | case2 items hshort hlanes =>
      rw [pairwiseSum, if_neg hshort, if_pos hlanes]
      exact .lanes (not_lt.mp hshort) hlanes
  | case3 items hshort hlanes ihfront ihback =>
      rw [pairwiseSum, if_neg hshort, if_neg hlanes]
      exact .halves (not_le.mp hlanes) ihfront ihback

/-- No list has a second one. -/
theorem SumsInBlocks.eq_pairwiseSum {items : List α} {total : α} (h : SumsInBlocks items total) :
    total = pairwiseSum items := by
  induction h with
  | short hshort => rw [pairwiseSum, if_pos hshort]
  | lanes hlong hlanes => rw [pairwiseSum, if_neg (not_lt.mpr hlong), if_pos hlanes]
  | halves hlong _ _ ihfront ihback =>
      rw [pairwiseSum, if_neg (by omega), if_neg (not_le.mpr hlong), ihfront, ihback]

/-! ## Exact sums -/

/-- Rationals have one sum only. -/
theorem AddsUp.eq_sum {items : List ℚ} {total : ℚ} (h : AddsUp ↑items total) : total = items.sum := by
  have hvalue := h.value_eq_sum id rfl neg_zero fun _ _ => rfl
  rwa [List.map_id] at hvalue

/-- The sum in blocks is the sum. -/
theorem blockedSum_eq_sum (items : List ℚ) : blockedSum items = items.sum := (addsUp_blockedSum items).eq_sum

/-- Summation in blocks comes to an end with one total, since both parts of a long list are shorter and neither is
empty. Whatever the numbers are, every item takes part in it once; and the sum of rationals is their sum from left to
right. -/
theorem blockedSum_takes_each_once :
    (∀ (α : Type) [Coordinate α] (items : List α),
      (∃ total, SumsInBlocks items total ∧ (∀ other, SumsInBlocks items other → other = total) ∧
          blockedSum items = 0 + total) ∧
        (128 < items.length → 0 < splitPoint items.length ∧ splitPoint items.length < items.length) ∧
        AddsUp ↑items (blockedSum items)) ∧
      ∀ items : List ℚ, blockedSum items = leftSum items := by
  refine ⟨fun α _ items => ⟨?_, splitPoint_between, addsUp_blockedSum items⟩, fun items => ?_⟩
  · exact ⟨pairwiseSum items, sumsInBlocks_pairwiseSum items, fun _ hother => hother.eq_pairwiseSum, rfl⟩
  · rw [blockedSum_eq_sum, (addsUp_leftSum items).eq_sum]

end RankingEval.Number
