/-
# Precision-recall curves

A curve of precision over recall, with the area under it. The area is computed when it is first asked
for and kept from then on; an undefined area, and one that is not a number, are not kept.
-/

import RankingEval.Curve.Basic
import RankingEval.Journal

namespace RankingEval

open RankingEval.Number RankingEval.Curve

/-- A precision-recall curve. -/
structure RecallCurve (α : Type) where
  /-- The points of the curve. -/
  curve : Curve α
  /-- The area under the curve, once it has been computed. -/
  area? : Option α

namespace RecallCurve

variable {α : Type}

/-- What the area under a precision-recall curve is called. -/
def areaName : String := "PR-AUC"

/-- A precision-recall curve without points, for about `size` of them. -/
def ofSize (size : Int) : RecallCurve α := ⟨.ofSize "Recall" "Precision" size, none⟩

/-- The points in order. -/
def points (c : RecallCurve α) : List (Point α) := c.curve.points

/-- Appends a point, or moves the last one there if it lies straight ahead. -/
def extendTo [Coordinate α] (tolerance : α) (c : RecallCurve α) (p : Point α) : RecallCurve α :=
  { c with curve := c.curve.extendTo tolerance p }

/-- The entry that records a computation of the area. -/
def areaEntry (count : Nat) : Entry :=
  ⟨.debug, .curve, "Computed " ++ areaName ++ " over " ++ toString count ++ " points"⟩

/-- What reading the area gives: its value, the curve that remembers it, and what was logged. -/
structure Reading (α : Type) where
  /-- The area, or why there is none. -/
  value : Except Failure α
  /-- The curve after the reading. -/
  curve : RecallCurve α
  /-- The entries written. -/
  entries : Journal

/-- Reads the area under the curve. -/
def readArea [Coordinate α] (c : RecallCurve α) : Reading α :=
  match c.area? with
  | some a => ⟨.ok a, c, []⟩
  | none =>
    match c.curve.area with
    | .error e => ⟨.error e, c, []⟩
    | .ok a =>
      let kept := if Coordinate.isUndefined a then none else some a
      ⟨.ok a, { c with area? := kept }, [areaEntry c.curve.size]⟩

/-- The line that heads the text of a curve with a given area. -/
def headLine (area : Float) : String := "# " ++ areaName ++ ": " ++ Number.text area

/-- The lines of a curve: its area, and one line for each point. -/
def readLines (c : RecallCurve Float) : Except Failure (List String) × RecallCurve Float × Journal :=
  let reading := c.readArea
  match reading.value with
  | .error e => (.error e, reading.curve, reading.entries)
  | .ok a => (.ok (headLine a :: c.curve.lines), reading.curve, reading.entries)

/-- The full name of the kind of curve. -/
def longName : String := "Precision-Recall-Curve"

/-- The short name of the kind of curve. -/
def shortName : String := "pr-curve"

end RecallCurve

end RankingEval
