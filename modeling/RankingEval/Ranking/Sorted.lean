/-
# Sorting rows

Rows are sorted by their values in either direction. Rows of equal value keep their order, and rows
without a value come last.
-/

import RankingEval.Datum.Compare
import RankingEval.Failure

namespace RankingEval.Ranking

variable {α : Type}

/-- One score may stand before another. -/
def inOrder (ascending : Bool) (a b : Float) : Bool := if ascending then a ≤ b else b ≤ a

/-- Rows sorted by their scores, those without a score last. -/
def sortedByScore (ascending : Bool) (rows : List (α × Float)) : List (α × Float) :=
  ((rows.filter fun row => !row.2.isNaN).mergeSort fun a b => inOrder ascending a.2 b.2)
    ++ rows.filter fun row => row.2.isNaN

/-- Rows sorted by their cells from the least on, those with a missing cell last. Cells of different
kinds cannot be sorted. -/
def sortedByCell (rows : List (α × Datum)) : Except Failure (List (α × Datum)) :=
  let present := (rows.filter fun row => !row.2.isMissing).mergeSort fun a b =>
    a.2.compare? b.2 != some .gt
  if comparableInRow (present.map (·.2)) then
    .ok (present ++ rows.filter fun row => row.2.isMissing)
  else .error .mistyped

end RankingEval.Ranking
