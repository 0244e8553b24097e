/-
# One pass builds the curve of the tie blocks

The pass over a ranking emits a point one item late and compares scores with that of the block's first
item. The account by tie blocks looks at the ranking as a whole and compares neighbours. This module
proves them equal: after every prefix the tally counts that prefix, its curve is that of the blocks that
end inside the prefix, and its score ties with whatever ties with the last item. Equality of doubles is
transitive, so that it does not matter which item of a block is compared.
-/

import Mathlib
import RankingEval.Proofs.Number.Order
import RankingEval.Ranking.TieBlocks

namespace RankingEval.Ranking

open RankingEval.Number RankingEval.Curve

variable {α : Type} [Coordinate α]

/-! ## Blocks of a longer ranking -/

/-- A score ties with each of two scores that tie, or with neither. -/
theorem tied_congr {s t : Option Float} (h : tied s t = true) (r : Option Float) :
    tied r t = tied r s := by
  rcases s with _ | s <;> rcases t with _ | t
  · rfl
  · cases h
  · cases h
  · cases r with
    | none => rfl
    | some r => exact (BEq.congr_right h).symm

/-- A block ends where two neighbours do not tie. -/
theorem endsBlock_iff {items : List Item} {t : ℕ} :
    endsBlock items t = true ↔ 0 < t ∧ ∃ last next, items[t - 1]? = some last ∧
      items[t]? = some next ∧ tied next.score last.score = false := by
  rw [endsBlock]
  cases hlast : items[t - 1]? <;> cases hnext : items[t]? <;> simp

/-- Blocks that end inside a ranking do not depend on what comes behind it. -/
theorem endsBlock_append (items : List Item) (item : Item) {t : ℕ} (ht : t < items.length) :
    endsBlock (items ++ [item]) t = endsBlock items t := by
  rw [endsBlock, endsBlock, List.getElem?_append_left ht, List.getElem?_append_left (by omega)]

/-- Before one more item a block ends unless the last item ties with it. -/
theorem endsBlock_length {items : List Item} {last : Item} (h : items.getLast? = some last)
    (item : Item) :
    endsBlock (items ++ [item]) items.length = !tied item.score last.score := by
  have hpos : 0 < items.length := List.length_pos_of_ne_nil fun hnil => by simp [hnil] at h
  rw [List.getLast?_eq_getElem?] at h
  rw [endsBlock, List.getElem?_append_left (by omega), h,
    List.getElem?_append_right (Nat.le_refl _), Nat.sub_self]
  simp only [List.getElem?_cons_zero, hpos, decide_true, Bool.true_and]

/-- Appending an item appends at most one block end, the one before it. -/
theorem blockEnds_append (items : List Item) (item : Item) :
    blockEnds (items ++ [item]) =
      blockEnds items ++ [items.length].filter (endsBlock (items ++ [item])) := by
  rw [blockEnds, List.length_append, List.length_singleton, List.range_succ, List.filter_append]
  congr 1
  refine List.filter_congr fun t ht => ?_
  exact endsBlock_append items item (List.mem_range.mp ht)

/-- A block that ends has an item and is followed by one. -/
theorem lt_of_mem_blockEnds {items : List Item} {t : ℕ} (h : t ∈ blockEnds items) :
    0 < t ∧ t < items.length := by
  rw [blockEnds, List.mem_filter, List.mem_range] at h
  refine ⟨Nat.pos_of_ne_zero fun hzero => ?_, h.1⟩
  subst hzero
  rw [endsBlock] at h
  cases hfirst : items[0]? <;> simp [hfirst] at h

/-- The positives within a prefix do not depend on what comes behind it. -/
theorem positivesWithin_append (items : List Item) (item : Item) {t : ℕ} (ht : t ≤ items.length) :
    positivesWithin (items ++ [item]) t = positivesWithin items t := by
  rw [positivesWithin, positivesWithin, List.take_append_of_le_length ht]

/-- The positives within a whole ranking are its positives. -/
theorem positivesWithin_length (items : List Item) :
    positivesWithin items items.length = items.countP (·.positive) := by
  rw [positivesWithin, List.take_length]

/-- When no two neighbours tie, a block ends after every item but the last one. -/
theorem blockEnds_of_untied {items : List Item}
    (untied : items.IsChain fun last next => tied next.score last.score = false) :
    blockEnds items = (List.range items.length).filter fun t => 0 < t := by
  refine List.filter_congr fun t ht => ?_
  have hlt := List.mem_range.mp ht
  rcases t with _ | t
  · rw [endsBlock]
    cases items[0]? <;> rfl
  · have huntied := List.isChain_iff_getElem.mp untied t hlt
    rw [endsBlock, List.getElem?_eq_getElem hlt, Nat.add_sub_cancel,
      List.getElem?_eq_getElem (Nat.lt_of_succ_lt hlt)]
    dsimp only
    rw [huntied]
    rfl

/-- Items without scores do not tie. -/
theorem untied_of_unscored {items : List Item} (h : ∀ item ∈ items, item.score = none) :
    items.IsChain fun last next => tied next.score last.score = false := by
  apply List.isChain_iff_getElem.mpr
  intro i hi
  rw [h _ (List.getElem_mem hi)]
  rfl

/-- Rankings whose blocks end at the same places, with the same number of positives before each of them,
have the same raw points. -/
theorem rawPoints_congr {positives : ℕ} {items others : List Item}
    (hlength : items.length = others.length) (hends : blockEnds items = blockEnds others)
    (hwithin : ∀ t ∈ items.length :: blockEnds items,
      positivesWithin items t = positivesWithin others t) :
    (rawPoints positives items : List (Point α)) = rawPoints positives others := by
  rw [rawPoints, rawPoints, ← hends, ← hlength, hwithin _ List.mem_cons_self]
  congr 1
  refine List.map_congr_left fun t ht => ?_
  rw [hwithin t (List.mem_cons_of_mem _ ht)]

/-- The points of the prefixes at which a block ends. -/
def innerPoints (positives : ℕ) (items : List Item) : List (Point α) :=
  (blockEnds items).map fun t => pointAt positives (positivesWithin items t) t

theorem innerPoints_append (positives : ℕ) (items : List Item) (item : Item) :
    (innerPoints positives (items ++ [item]) : List (Point α)) =
      innerPoints positives items ++
        if endsBlock (items ++ [item]) items.length then
          [pointAt positives (positivesWithin items items.length) items.length]
        else [] := by
  rw [innerPoints, blockEnds_append, List.map_append, innerPoints]
  congr 1
  · refine List.map_congr_left fun t ht => ?_
    rw [positivesWithin_append items item (lt_of_mem_blockEnds ht).2.le]
  · rw [List.filter_singleton]
    cases endsBlock (items ++ [item]) items.length with
    | false => rfl
    | true =>
        rw [cond_true, List.map_singleton, positivesWithin_append items item (Nat.le_refl _)]
        rfl

/-! ## The tally after a prefix -/

/-- A tally describes the items that were counted: how many there were, how many of them are positive,
with which scores the last one ties, and the curve of the blocks that are complete. -/
structure Tally.Describes (tolerance : α) (positives : ℕ) (t : Tally α) (items : List Item) :
    Prop where
  /-- The positives are counted. -/
  found_eq : t.found = positivesWithin items items.length
  /-- The items are counted. -/
  seen_eq : t.seen = items.length
  /-- The score that is kept ties with whatever ties with the last item. -/
  tied_block : ∀ last, items.getLast? = some last → ∀ s, tied s t.block = tied s last.score
  /-- The curve is that of the blocks before the last one. -/
  curve_eq : t.curve =
    (innerPoints positives items).foldl (.extendTo tolerance) (.ofSize ((positives : ℤ) + 2))

/-- Counting one more item keeps the description. -/
theorem Tally.Describes.advance {tolerance : α} {positives : ℕ} {t : Tally α} {items : List Item}
    (h : t.Describes tolerance positives items) (item : Item) :
    (t.advance tolerance positives item).Describes tolerance positives (items ++ [item]) := by
  obtain ⟨hfound, hseen, htied, hcurve⟩ := h
  have hfound' : (if item.positive then t.found + 1 else t.found) =
      positivesWithin (items ++ [item]) (items ++ [item]).length := by
    rw [positivesWithin_length, List.countP_append, List.countP_singleton, hfound,
      positivesWithin_length]
    split_ifs <;> rfl
  have hseen' : t.seen + 1 = (items ++ [item]).length := by
    rw [List.length_append, hseen, List.length_singleton]
  rw [Tally.advance, hfound', hseen']
  cases hlast : items.getLast? with
  | none =>
      -- the first item starts a block and emits nothing
      obtain rfl : items = [] := List.getLast?_eq_none_iff.mp hlast
      rw [List.length_nil] at hseen
      rw [if_pos hseen]
      exact ⟨rfl, rfl, fun last hlast s => by cases hlast; rfl, hcurve⟩
  | some last =>
      have hends := endsBlock_length hlast item
      have hne : t.seen ≠ 0 := by
        rw [hseen]
        exact (List.length_pos_of_ne_nil fun hnil => by simp [hnil] at hlast).ne'
      rw [if_neg hne, htied last hlast]
      by_cases htie : tied item.score last.score = true
      · rw [if_pos htie]
        rw [htie, Bool.not_true] at hends
        refine ⟨rfl, rfl, fun next hnext s => ?_, ?_⟩
        · obtain rfl : item = next := by simpa using hnext
          rw [htied last hlast, tied_congr htie]
        · rw [hcurve, innerPoints_append, hends, if_neg Bool.false_ne_true, List.append_nil]
      · rw [if_neg htie]
        rw [Bool.eq_false_of_not_eq_true htie, Bool.not_false] at hends
        refine ⟨rfl, rfl, fun next hnext s => ?_, ?_⟩
        · obtain rfl : item = next := by simpa using hnext
          rfl
        · rw [innerPoints_append, hends, if_pos rfl, List.foldl_append, ← hcurve, hfound, hseen]
          rfl

/-- The tally after all items of a ranking describes the ranking. -/
theorem Tally.describes_foldl (tolerance : α) (positives : ℕ) (items : List Item) :
    (items.foldl (Tally.advance tolerance positives) (Tally.start positives)).Describes
      tolerance positives items := by
  induction items using List.reverseRecOn with
  | nil => exact ⟨rfl, rfl, fun last hlast => (nomatch hlast), rfl⟩
  | append_singleton items item ih =>
      rw [List.foldl_append, List.foldl_cons, List.foldl_nil]
      exact ih.advance item

/-- The pass over a ranking builds the curve of its tie blocks. -/
theorem curveOf_eq_blockCurve (tolerance : α) (positives : ℕ) (items : List Item) :
    curveOf tolerance positives items = blockCurve tolerance positives items := by
  obtain ⟨hfound, hseen, -, hcurve⟩ := Tally.describes_foldl tolerance positives items
  rw [curveOf, Tally.finish, hfound, hseen, hcurve, blockCurve, rawPoints, List.foldl_append]
  rfl

end RankingEval.Ranking
