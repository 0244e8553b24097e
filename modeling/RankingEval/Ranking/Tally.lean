/-
# From a ranking to its precision-recall curve

The curve of a ranking is built in one pass. Before an item is counted, the point for the items ahead
of it is known; it is emitted unless the item ties with the one before, so that a block of tied items
becomes one step. The last point is emitted when the ranking ends, at full recall.
-/

import RankingEval.Curve.Recall
import RankingEval.Ranking.Item

namespace RankingEval.Ranking

open RankingEval.Number RankingEval.Curve

variable {α : Type} [Coordinate α]

/-- The scores of two items are equal; items without scores never tie. -/
def tied : Option Float → Option Float → Bool
  | some s, some t => s == t
  | _, _ => false

/-- What has been counted so far, and the curve up to the last block that is complete. -/
structure Tally (α : Type) where
  /-- The number of positives found. -/
  found : Nat
  /-- The number of items seen. -/
  seen : Nat
  /-- The score of the block that is being counted. -/
  block : Option Float
  /-- The curve so far. -/
  curve : RecallCurve α

/-- The point of a prefix of a ranking: recall over all positives, precision within the prefix. -/
def pointAt (positives found seen : Nat) : Point α :=
  ⟨Coordinate.quotient found positives, Coordinate.quotient found seen⟩

/-- A tally before the first item. -/
def Tally.start (positives : Nat) : Tally α := ⟨0, 0, none, .ofSize ((positives : Int) + 2)⟩

/-- Counts one more item, and emits the point before it where a block ends there. -/
def Tally.advance (tolerance : α) (positives : Nat) (t : Tally α) (item : Item) : Tally α :=
  let found := if item.positive then t.found + 1 else t.found
  let seen := t.seen + 1
  if t.seen = 0 then ⟨found, seen, item.score, t.curve⟩
  else if tied item.score t.block then ⟨found, seen, t.block, t.curve⟩
  else
    ⟨found, seen, item.score,
      t.curve.extendTo tolerance (pointAt positives t.found t.seen)⟩

/-- Emits the last point, at full recall. -/
def Tally.finish (tolerance : α) (t : Tally α) : RecallCurve α :=
  t.curve.extendTo tolerance ⟨1, Coordinate.quotient t.found t.seen⟩

/-- The precision-recall curve of a ranking that holds items. -/
def curveOf (tolerance : α) (positives : Nat) (items : List Item) : RecallCurve α :=
  (items.foldl (Tally.advance tolerance positives) (Tally.start positives)).finish tolerance

/-- The entry that records how many identifiers a ranking turned out to hold. -/
def countEntry (seen : Nat) (expected : Datum) : Entry :=
  ⟨.warning, .evaluation, "Ranking yielded " ++ toString seen ++ " identifiers, expected "
    ++ expected.asText⟩

/-- The entry that records a finished curve. -/
def builtEntry (points seen : Nat) : Entry :=
  ⟨.debug, .evaluation, "Built PR curve with " ++ toString points ++ " points from "
    ++ toString seen ++ " items"⟩

/-- The precision-recall curve of a ranking, with the entries written on the way. A ranking without
positives or without items has none; an unexpected number of items is only reported. -/
def evaluate (tolerance : α) (expected : Datum) (positives : Nat) (items : List Item) :
    Except Failure (RecallCurve α × Journal) :=
  if positives = 0 then .error .noPositives
  else if items.isEmpty then .error (.emptyRanking positives)
  else
    let curve := curveOf tolerance positives items
    let report :=
      if (Datum.int items.length).same expected then [] else [countEntry items.length expected]
    .ok (curve, report ++ [builtEntry curve.curve.size items.length])

/-- The curve of a ranking from its identifiers, the positives and the scores. -/
def evaluateWithin (tolerance : α) (expected : Datum) (positives : Positives) (ids : List Identity)
    (scores : Option Scores) : Except Failure (RecallCurve α × Journal) := do
  if positives.count = 0 then throw .noPositives
  let items ← ids.mapM (Item.of positives scores)
  evaluate tolerance expected positives.count items

/-- The curve of a ranking in doubles. -/
def evaluateIds (expected : Datum) (positives : Positives) (ids : List Identity)
    (scores : Option Scores) : Except Failure (RecallCurve Float × Journal) :=
  evaluateWithin straightness expected positives ids scores

end RankingEval.Ranking
