/-
# A growing buffer of points

Points are kept in a buffer whose size is estimated beforehand and doubled when the estimate is
exceeded. A coordinate is written on its own, and writing it may fail; the cells beyond the count are
not part of the curve, whatever they hold. `Buffer.points` is the list that a buffer stands for.
-/

import RankingEval.Curve.Polyline

namespace RankingEval.Curve

open RankingEval.Number

/-- A cell of a buffer; a coordinate that was never written is absent. -/
structure Cell (α : Type) where
  /-- The horizontal coordinate, once written. -/
  x : Option α
  /-- The vertical coordinate, once written. -/
  y : Option α

/-- A cell before anything was written to it. -/
def Cell.blank {α : Type} : Cell α := ⟨none, none⟩

/-- The point in a cell, once both coordinates were written. -/
def Cell.point? {α : Type} (c : Cell α) : Option (Point α) := do
  return ⟨← c.x, ← c.y⟩

/-- A sequence of points in cells, of which the first `count` are in use. -/
structure Buffer (α : Type) where
  /-- The cells, in use or not. -/
  cells : Array (Cell α)
  /-- The number of points. -/
  count : Nat

namespace Buffer

variable {α ε : Type}

/-- An empty buffer for about `size` points, and for no fewer than two. -/
def ofSize (size : Int) : Buffer α := ⟨Array.replicate (max size 2).toNat Cell.blank, 0⟩

/-- The points in use, in order. -/
def points (b : Buffer α) : List (Point α) :=
  (b.cells.toList.take b.count).filterMap Cell.point?

/-- The `i`-th point, if it is in use. -/
def point? (b : Buffer α) (i : Nat) : Option (Point α) :=
  if i < b.count then b.cells[i]?.bind Cell.point? else none

/-- Doubles the buffer when every cell is in use. -/
def reserve (b : Buffer α) : Buffer α :=
  if b.count < b.cells.size then b
  else { b with cells := b.cells ++ Array.replicate b.cells.size Cell.blank }

/-- Writes a horizontal coordinate into a cell. -/
def writeX (b : Buffer α) (i : Nat) (x : α) : Buffer α :=
  { b with cells := b.cells.modify i fun c => { c with x := some x } }

/-- Writes a vertical coordinate into a cell. -/
def writeY (b : Buffer α) (i : Nat) (y : α) : Buffer α :=
  { b with cells := b.cells.modify i fun c => { c with y := some y } }

/-- Writes both coordinates into a cell, one after the other; a coordinate that cannot be written
leaves the buffer as it was left by the one before. -/
def write (b : Buffer α) (i : Nat) (x y : Except ε α) : Except ε Unit × Buffer α :=
  match x with
  | .error e => (.error e, b)
  | .ok x =>
    match y with
    | .error e => (.error e, b.writeX i x)
    | .ok y => (.ok (), (b.writeX i x).writeY i y)

/-- Appends a point. -/
def push (b : Buffer α) (x y : Except ε α) : Except ε Unit × Buffer α :=
  let room := b.reserve
  match room.write room.count x y with
  | (.ok (), written) => (.ok (), { written with count := written.count + 1 })
  | (.error e, written) => (.error e, written)

/-- Appends a point, or moves the last point there if the step to it continues the last segment. The
terms of the step are those of the arithmetic and may be refused where a written coordinate is not. -/
def pushSimplified [Coordinate α] (tolerance : α) (b : Buffer α) (step : Except ε (Point α))
    (x y : Except ε α) : Except ε Unit × Buffer α :=
  if b.count < 2 then b.push x y
  else
    match step with
    | .error e => (.error e, b)
    | .ok c =>
      match b.point? (b.count - 2), b.point? (b.count - 1) with
      | some first, some last =>
        if continuesForward tolerance first last c then b.write (b.count - 1) x y else b.push x y
      | _, _ => b.push x y

end Buffer

end RankingEval.Curve
