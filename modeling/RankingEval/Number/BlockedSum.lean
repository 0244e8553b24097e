/-
# Summation in blocks

Long sums are taken in blocks, which keeps the rounding error of a sum of doubles small: fewer than
eight items from left to right, up to 128 items in eight lanes that are joined pairwise, and more
items as two halves. The order of the additions is part of the result, down to its last digit.
-/

import RankingEval.Number.Coordinate

namespace RankingEval.Number

variable {α : Type} [Coordinate α]

/-- The sum from left to right, started at negative zero, which changes no item. -/
def leftSum (items : List α) : α := items.foldl (· + ·) (-0)

/-- Adds the items of whole groups of eight to eight lanes, and returns the items left over. -/
def fillLanes (lanes : List α) (items : List α) : List α × List α :=
  if items.length < 8 then (lanes, items)
  else fillLanes (List.zipWith (· + ·) lanes (items.take 8)) (items.drop 8)
termination_by items.length
decreasing_by simp only [List.length_drop]; omega

/-- Adds each item to its neighbour. -/
def joinPairs : List α → List α
  | a :: b :: rest => (a + b) :: joinPairs rest
  | rest => rest

/-- The sum of at least eight items in eight lanes; what does not fill a group is added at the end. -/
def laneSum (items : List α) : α :=
  let (lanes, rest) := fillLanes (items.take 8) (items.drop 8)
  leftSum (joinPairs (joinPairs (joinPairs lanes)) ++ rest)

/-- Where more than 128 items are divided: half their number, rounded down to a multiple of eight. -/
def splitPoint (n : Nat) : Nat := n / 2 / 8 * 8

/-- The sum in blocks. -/
def pairwiseSum (items : List α) : α :=
  if items.length < 8 then leftSum items
  else if items.length ≤ 128 then laneSum items
  else
    pairwiseSum (items.take (splitPoint items.length))
      + pairwiseSum (items.drop (splitPoint items.length))
termination_by items.length
decreasing_by
  · simp only [List.length_take, splitPoint]; omega
  · simp only [List.length_drop, splitPoint]; omega

/-- The sum in blocks, as areas and distances take it: nothing sums to plain zero. -/
def blockedSum (items : List α) : α := 0 + pairwiseSum items

end RankingEval.Number
