/-
# Curves

A curve is a labelled sequence of points that grows at its end. Reading goes by position, and a
negative position counts from the end.
-/

import RankingEval.Curve.Area
import RankingEval.Curve.Buffer
import RankingEval.Datum.Numeric

namespace RankingEval

open RankingEval.Number RankingEval.Curve

namespace Curve

/-- An axis of a curve. -/
inductive Axis where
  /-- From left to right. -/
  | horizontal
  /-- Upwards. -/
  | vertical

/-- The coordinate of a cell along an axis, once written. -/
def Cell.along {α : Type} (axis : Axis) (c : Cell α) : Option α :=
  match axis with
  | .horizontal => c.x
  | .vertical => c.y

/-- A view of the coordinates in use along an axis. -/
structure View (α : Type) where
  /-- The axis. -/
  axis : Axis
  /-- The coordinates; one that was never written is absent. -/
  coordinates : List (Option α)
  /-- Coordinates may be set through the view. -/
  writeable : Bool

end Curve

/-- A curve with labelled axes. -/
structure Curve (α : Type) where
  /-- The label of the horizontal axis. -/
  labelX : String
  /-- The label of the vertical axis. -/
  labelY : String
  /-- The points. -/
  buffer : Buffer α

namespace Curve

variable {α ε : Type}

/-- A curve without points, for about `size` of them. -/
def ofSize (labelX labelY : String) (size : Int) : Curve α := ⟨labelX, labelY, .ofSize size⟩

/-- The points in order. -/
def points (c : Curve α) : List (Point α) := c.buffer.points

/-- The number of points. -/
def size (c : Curve α) : Nat := c.buffer.count

/-- Appends a point whose coordinates may be unreadable. -/
def add (c : Curve α) (x y : Except ε α) : Except ε Unit × Curve α :=
  let (outcome, buffer) := c.buffer.push x y
  (outcome, { c with buffer })

/-- Appends a point or moves the last one, where the coordinates may be unreadable. -/
def addSimplified [Coordinate α] (tolerance : α) (c : Curve α) (step : Except ε (Point α))
    (x y : Except ε α) : Except ε Unit × Curve α :=
  let (outcome, buffer) := c.buffer.pushSimplified tolerance step x y
  (outcome, { c with buffer })

/-- Appends a point, or moves the last one there if it lies straight ahead. -/
def extendTo [Coordinate α] (tolerance : α) (c : Curve α) (p : Point α) : Curve α :=
  (c.addSimplified tolerance (.ok p : Except Empty (Point α)) (.ok p.x) (.ok p.y)).2

/-- The area under the curve. -/
def area [Coordinate α] (c : Curve α) : Except Failure α :=
  match area? c.points with
  | some a => .ok a
  | none => .error .areaUndefined

/-- The position that an index stands for. Only whole numbers select a point; the range is checked
first, so that a fraction within it is no index and one beyond it is out of range. -/
def locate (c : Curve α) (index : Datum) : Except Failure Nat :=
  let count : Int := c.size
  match index with
  | .int n =>
    let i := if n < 0 then n + count else n
    if 0 ≤ i && i < count then .ok i.toNat else .error (.pointOutOfRange (.int i) c.size)
  | .bool b =>
    if (if b then 1 else 0) < count then .error .mistyped
    else .error (.pointOutOfRange index c.size)
  | .float x =>
    let limit := Float.ofNat c.size
    let i := if x < 0 then x + limit else x
    if 0 ≤ i && i < limit then .error .notAnIndex
    else .error (.pointOutOfRange (.float i) c.size)
  | _ => .error .mistyped

/-- The point at an index. -/
def pointAt (c : Curve α) (index : Datum) : Except Failure (Point α) := do
  let i ← c.locate index
  match c.buffer.point? i with
  | some p => return p
  | none => throw .notAnIndex

/-- The view of the coordinates along an axis, which is for reading only. -/
def view (c : Curve α) (axis : Axis) : View α :=
  ⟨axis, (c.buffer.cells.toList.take c.buffer.count).map (Cell.along axis), false⟩

/-- Sets a coordinate through a view of the curve, if the view allows it. -/
def setThrough (c : Curve α) (view : View α) (index : Datum) (value : Except Failure α) :
    Except Failure Unit × Curve α :=
  if view.writeable then
    match c.locate index, value with
    | .error _, _ => (.error .notAnIndex, c)
    | .ok _, .error e => (.error e, c)
    | .ok i, .ok v =>
      match view.axis with
      | .horizontal => (.ok (), { c with buffer := c.buffer.writeX i v })
      | .vertical => (.ok (), { c with buffer := c.buffer.writeY i v })
  else (.error .unreadable, c)

/-- One line of text for a point. -/
def lineOf (p : Point Float) : String := Number.text p.x ++ " " ++ Number.text p.y

/-- One line of text for each point. -/
def lines (c : Curve Float) : List String := c.points.map lineOf

/-- The full name of the kind of curve. -/
def longName : String := "XYCurve"

/-- The short name of the kind of curve. -/
def shortName : String := "xy-curve"

/-- A curve in short: the name of its kind, its labels and its size. -/
def summary (name : String) (c : Curve α) : String :=
  name ++ "(" ++ c.labelX ++ "/" ++ c.labelY ++ ", points=" ++ toString c.size ++ ")"

end Curve

/-- Lines as the text of a file: each line is ended by a line feed. -/
def textOfLines (lines : List String) : String := String.join (lines.map (· ++ "\n"))

end RankingEval
