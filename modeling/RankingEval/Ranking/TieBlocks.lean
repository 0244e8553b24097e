/-
# Tie blocks

A second account of the curve of a ranking, which looks at the ranking as a whole. A block is a maximal
run of neighbouring items that tie; the raw points of a curve are those of the prefixes at which a block
ends, and the curve is what is left of them when each is added in turn.
-/

import RankingEval.Ranking.Tally

namespace RankingEval.Ranking

open RankingEval.Number RankingEval.Curve

variable {α : Type} [Coordinate α]

/-- The number of positives among the first `t` items. -/
def positivesWithin (items : List Item) (t : Nat) : Nat := (items.take t).countP (·.positive)

/-- A block ends after the first `t` items: the next item exists and does not tie with the last one. -/
def endsBlock (items : List Item) (t : Nat) : Bool :=
  match items[t - 1]?, items[t]? with
  | some last, some next => decide (0 < t) && !tied next.score last.score
  | _, _ => false

/-- The lengths of the proper prefixes at which a block ends, in order. -/
def blockEnds (items : List Item) : List Nat := (List.range items.length).filter (endsBlock items)

/-- The number of blocks of a ranking that holds items. -/
def blockCount (items : List Item) : Nat := (blockEnds items).length + 1

/-- The raw points of a ranking: one for each block, the last of them at full recall. -/
def rawPoints (positives : Nat) (items : List Item) : List (Point α) :=
  (blockEnds items).map (fun t => pointAt positives (positivesWithin items t) t)
    ++ [⟨1, Coordinate.quotient (positivesWithin items items.length) items.length⟩]

/-- The curve of the raw points of a ranking, each of them added in turn. -/
def blockCurve (tolerance : α) (positives : Nat) (items : List Item) : RecallCurve α :=
  (rawPoints positives items).foldl (.extendTo tolerance) (.ofSize ((positives : Int) + 2))

end RankingEval.Ranking
