/-
# Evaluation

Rankings are evaluated against the identifiers of a positive class. The curves are kept on a shelf, the
store pairs rankings with places on it, and what happens is reported in a journal. All three survive a
failure: what was done before it stays done.
-/

import RankingEval.Store
import RankingEval.Table.Labels

namespace RankingEval

open RankingEval.Number RankingEval.Ranking

namespace Evaluation

/-- What an evaluation works on. -/
structure State where
  /-- The curves that were made. -/
  shelf : Array (RecallCurve Float) := #[]
  /-- The results: for each ranking the place of its curve on the shelf. -/
  store : Store Nat := .empty
  /-- What was reported, the oldest first. -/
  journal : Journal := []

end Evaluation

/-- A computation on an evaluation, which may fail. -/
abbrev Evaluating := ExceptT Failure (StateM Evaluation.State)

namespace Evaluation

/-- Reports entries. -/
def report (entries : Journal) : Evaluating Unit :=
  modify fun s => { s with journal := s.journal ++ entries }

/-- Puts a curve on the shelf. -/
def shelve (curve : RecallCurve Float) : Evaluating Nat :=
  modifyGet fun s => (s.shelf.size, { s with shelf := s.shelf.push curve })

/-- Pairs a ranking with the curve at a place of the shelf. -/
def record (r : Ranking) (place : Nat) : Evaluating Unit := do
  report ((← get).store.addReport r)
  modify fun s => { s with store := s.store.add r place }

/-- The curve at a place of the shelf. -/
def curveAt (place : Nat) : Evaluating (RecallCurve Float) := do
  return (← get).shelf.getD place (.ofSize 0)

/-- The area under the curve at a place of the shelf, which the curve remembers. -/
def areaAt (place : Nat) : Evaluating Float := do
  let reading := (← curveAt place).readArea
  modify fun s => { s with shelf := s.shelf.set! place reading.curve }
  report reading.entries
  match reading.value with
  | .ok area => return area
  | .error failure => throw failure

/-- The lines of the curve at a place of the shelf. -/
def linesAt (place : Nat) : Evaluating (List String) := do
  let area ← areaAt place
  return RecallCurve.headLine area :: (← curveAt place).curve.lines

/-- The area of every result under the name of its ranking; a name that comes again keeps its place and
takes the later area. -/
def summary : Evaluating (List (String × Float)) := do
  (← get).store.entries.foldlM
    (fun areas (r, place) => do return putName areas r.name (← areaAt place)) []

/-- The results as text: for each of them a line with the name of the ranking, and the lines of its
curve. -/
def text : Evaluating String := do
  let blocks ← (← get).store.entries.mapM fun (r, place) => do
    return ("# " ++ r.name) :: (← linesAt place)
  return textOfLines blocks.flatten

/-- The area of a ranking, as it is reported. -/
def areaText (area : Float) : String := Number.fixed 4 area

/-- Computes, stores and reports the curve of a ranking. -/
def evaluateRanking (positives : Positives) (r : Ranking) : Evaluating Unit := do
  let (curve, entries) ← r.curve positives
  report entries
  let place ← shelve curve
  record r place
  let area ← areaAt place
  report [⟨.info, .evaluation, r.name ++ ": " ++ RecallCurve.areaName ++ " = " ++ areaText area⟩]

/-- Rankings without the later ones of equal handle, and without those of the given handles. -/
def unseen (seen : List Handle) : List Ranking → List Ranking
  | [] => []
  | r :: rest =>
    if seen.contains r.handle then unseen seen rest else r :: unseen (r.handle :: seen) rest

/-- The scorings among some rankings. -/
def scorings (rankings : List Ranking) : List Scoring :=
  rankings.filterMap fun
    | .scoring s => some s
    | .order _ => none

/-- The orders among some rankings. -/
def orders (rankings : List Ranking) : List Order :=
  rankings.filterMap fun
    | .scoring _ => none
    | .order o => some o

/-- The rankings to evaluate, each once: the scorings first, then the orders that no scoring derives. -/
def agenda (rankings : List Ranking) : List Ranking :=
  let scored := scorings rankings
  unseen [] (scored.map .scoring)
    ++ unseen (scored.map (·.order.handle)) ((orders rankings).map .order)

/-- Evaluates rankings against the identifiers with a label in which the pattern occurs. Where there are
none, nothing is evaluated. -/
def evaluate (positiveClass : String) (labels : Labels) (rankings : List Ranking) : Evaluating Unit := do
  let ids ← labels.matchingPattern {} (.text positiveClass)
  let positives ← Positives.ofIdentities (ids.map (·.identity))
  if ids.isEmpty then
    report [⟨.warning, .evaluation,
      "Computing a precision-recall curve failed - no objects matched '" ++ positiveClass ++ "'."⟩]
  else
    (agenda rankings).forM (evaluateRanking positives)

end Evaluation

end RankingEval
