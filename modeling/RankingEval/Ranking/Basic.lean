/-
# Rankings

A ranking is either a scoring, which gives every identifier a score and ranks them by it, or an order
without scores. Rankings are told apart by their handles and not by what they hold. The order that a
scoring derives is a ranking too, with a handle of its own.
-/

import RankingEval.Ranking.Sorted
import RankingEval.Ranking.Tally
import RankingEval.Table.Column

namespace RankingEval

namespace Ranking

/-- What tells rankings apart. -/
inductive Handle where
  /-- A ranking that was made on its own. -/
  | made (number : Nat)
  /-- The order derived by a scoring. -/
  | derived (number : Nat)
deriving DecidableEq, Repr

/-- An order of identifiers, the most outlying first. -/
structure Order where
  /-- What tells it apart. -/
  handle : Handle
  /-- The name of the method that ranks. -/
  name : String
  /-- The identifiers in order. -/
  ids : List Identifier

/-- Scores for identifiers. -/
structure Scoring where
  /-- The number that tells it apart. -/
  number : Nat
  /-- The name of the method that scores. -/
  name : String
  /-- The identifiers with their scores, row by row. -/
  rows : List (Identifier × Float)
  /-- Low scores mean more outlying. -/
  ascending : Bool

/-- The order that a scoring derives. -/
def Scoring.order (s : Scoring) : Order :=
  ⟨.derived s.number, s.name, (sortedByScore s.ascending s.rows).map (·.1)⟩

/-- The scores of a scoring by identifier. -/
def Scoring.table (s : Scoring) : Except Failure Scores :=
  Scores.ofList (s.rows.map fun (id, score) => (id.identity, .ok score))

/-- The scoring of a column of identifiers by a column of values. -/
def Scoring.ofColumns (number : Nat) (name : String) (ascending : Bool) (ids values : Column) :
    Except Failure Scoring := do
  return ⟨number, name, ids.identifiers.zip (← values.scores), ascending⟩

/-- The order of a column of identifiers by a column of positions. -/
def Order.ofColumns (number : Nat) (name : String) (ids positions : Column) : Except Failure Order := do
  return ⟨.made number, name, (← sortedByCell (ids.identifiers.zip positions.cells)).map (·.1)⟩

end Ranking

/-- A ranking of identifiers. -/
inductive Ranking where
  /-- With scores. -/
  | scoring (scoring : Ranking.Scoring)
  /-- Without scores. -/
  | order (order : Ranking.Order)

namespace Ranking

/-- What tells a ranking apart. -/
def handle : Ranking → Handle
  | scoring s => .made s.number
  | order o => o.handle

/-- The name of a ranking. -/
def name : Ranking → String
  | scoring s => s.name
  | order o => o.name

/-- The precision-recall curve of a ranking, with the entries written on the way. -/
def curve (positives : Positives) : Ranking → Except Failure (RecallCurve Float × Journal)
  | scoring s => do
    let table ← s.table
    evaluateIds (.int s.rows.length) positives (s.order.ids.map (·.identity)) (some table)
  | order o => evaluateIds (.int o.ids.length) positives (o.ids.map (·.identity)) none

end Ranking

end RankingEval
