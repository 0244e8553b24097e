/-
# Sorted rankings

Two sorted arrangements of the same items may differ within a block of items that tie, and nowhere else.
Blocks therefore end at the same places, and the items in front of such a place are the same in both. The
raw points of a curve depend on no more than that.
-/

import Mathlib
import RankingEval.Proofs.Ranking.Blocks

namespace RankingEval.Ranking

open RankingEval.Number

/-! ## Sorted lists -/

section Sorted

variable {β γ : Type} [LinearOrder γ] {rank : β → γ} {l others : List β}

/-- Sorted arrangements of the same items have the same ranks in the same order. -/
theorem map_rank_eq_of_perm (hl : l.Pairwise fun a b => rank a ≤ rank b)
    (hothers : others.Pairwise fun a b => rank a ≤ rank b) (hperm : l.Perm others) :
    l.map rank = others.map rank := by
  apply List.Perm.eq_of_pairwise (fun a b _ _ => le_antisymm)
  · exact List.pairwise_map.mpr hl
  · exact List.pairwise_map.mpr hothers
  · exact hperm.map rank

/-- Where the rank changes in a sorted list, the items in front are those of lower rank. -/
theorem take_eq_filter (hl : l.Pairwise fun a b => rank a ≤ rank b) {t : ℕ} {last next : γ}
    (hpos : 0 < t) (hlast : (l.map rank)[t - 1]? = some last)
    (hnext : (l.map rank)[t]? = some next) (hchange : last ≠ next) :
    l.take t = l.filter fun a => rank a < next := by
  rw [List.getElem?_eq_some_iff] at hlast hnext
  obtain ⟨hlt, hnext⟩ := hnext
  obtain ⟨_, hlast⟩ := hlast
  rw [List.length_map] at hlt
  rw [List.getElem_map] at hlast hnext
  rw [List.pairwise_iff_getElem] at hl
  have hstep : last < next := by
    rw [← hlast, ← hnext] at hchange ⊢
    exact lt_of_le_of_ne (hl (t - 1) t (by omega) hlt (by omega)) hchange
  have hfront : ∀ a ∈ l.take t, rank a < next := by
    intro a ha
    obtain ⟨i, hi, rfl⟩ := List.mem_take_iff_getElem.mp ha
    rcases (show i ≤ t - 1 by omega).eq_or_lt with rfl | hbefore
    · exact hlast ▸ hstep
    · have hle := hl i (t - 1) (by omega) (by omega) hbefore
      exact lt_of_le_of_lt (hlast ▸ hle) hstep
  have hback : ∀ a ∈ l.drop t, ¬rank a < next := by
    intro a ha
    obtain ⟨i, hi, rfl⟩ := List.mem_drop_iff_getElem.mp ha
    rcases Nat.eq_zero_or_pos i with rfl | hbehind
    · exact not_lt_of_ge hnext.ge
    · have hle := hl t (t + i) hlt (by omega) (by omega)
      exact not_lt_of_ge (hnext ▸ hle)
  conv_rhs => rw [← List.take_append_drop t l]
  rw [List.filter_append, List.filter_eq_self.mpr (by simpa using hfront),
    List.filter_eq_nil_iff.mpr (by simpa using hback), List.append_nil]

end Sorted

/-! ## Items -/

section Items

variable {γ : Type} [LinearOrder γ] {rank : Item → γ} {items others : List Item}

/-- The rank of an item decides on ties. -/
def RankDecides (rank : Item → γ) (items : List Item) : Prop :=
  ∀ a ∈ items, ∀ b ∈ items, tied b.score a.score = true ↔ rank a = rank b

omit [LinearOrder γ] in
/-- Where ranks decide on ties, a block ends where the rank changes. -/
theorem endsBlock_iff_rank (hrank : RankDecides rank items) {t : ℕ} :
    endsBlock items t = true ↔ 0 < t ∧ ∃ last next, (items.map rank)[t - 1]? = some last ∧
      (items.map rank)[t]? = some next ∧ last ≠ next := by
  rw [endsBlock_iff]
  simp only [List.getElem?_map, Option.map_eq_some_iff]
  refine and_congr_right fun _ => ?_
  constructor
  · rintro ⟨last, next, hlast, hnext, huntied⟩
    refine ⟨rank last, rank next, ⟨last, hlast, rfl⟩, ⟨next, hnext, rfl⟩, ?_⟩
    intro heq
    rw [← hrank last (List.mem_of_getElem? hlast) next (List.mem_of_getElem? hnext), huntied] at heq
    exact Bool.false_ne_true heq
  · rintro ⟨_, _, ⟨last, hlast, rfl⟩, ⟨next, hnext, rfl⟩, hne⟩
    refine ⟨last, next, hlast, hnext, Bool.eq_false_of_not_eq_true ?_⟩
    rwa [hrank last (List.mem_of_getElem? hlast) next (List.mem_of_getElem? hnext)]

/-- Sorted arrangements of the same items have the same raw points. -/
theorem rawPoints_eq_of_perm {α : Type} [Coordinate α] (positives : ℕ)
    (hitems : items.Pairwise fun a b => rank a ≤ rank b)
    (hothers : others.Pairwise fun a b => rank a ≤ rank b) (hperm : items.Perm others)
    (hrank : RankDecides rank items) :
    (rawPoints positives items : List (Curve.Point α)) = rawPoints positives others := by
  have hlength := hperm.length_eq
  have hranks := map_rank_eq_of_perm hitems hothers hperm
  have hrank' : RankDecides rank others := by
    intro a ha b hb
    exact hrank a (hperm.mem_iff.mpr ha) b (hperm.mem_iff.mpr hb)
  have hends : blockEnds items = blockEnds others := by
    rw [blockEnds, blockEnds, ← hlength]
    congr 1
    funext t
    rw [Bool.eq_iff_iff, endsBlock_iff_rank hrank, endsBlock_iff_rank hrank', hranks]
  apply rawPoints_congr hlength hends
  intro t ht
  rcases List.mem_cons.mp ht with rfl | hend
  · rw [positivesWithin_length, hlength, positivesWithin_length]
    exact hperm.countP_eq _
  · -- the items in front are those whose rank is below that of the item behind the block
    obtain ⟨hpos, last, next, hlast, hnext, hchange⟩ :=
      (endsBlock_iff_rank hrank).mp (List.mem_filter.mp hend).2
    rw [positivesWithin, positivesWithin, take_eq_filter hitems hpos hlast hnext hchange,
      take_eq_filter hothers hpos (hranks ▸ hlast) (hranks ▸ hnext) hchange]
    exact (hperm.filter _).countP_eq _

end Items

end RankingEval.Ranking
