/-
# Polylines

A curve is a list of points, and adding a point either extends the list or moves its last point. This
module states that rule on plain lists: a point that continues the last segment forward, up to a
tolerance on the sine of the turn, takes the place of the last point. The growing store of a curve and
the area under it are defined elsewhere and refer to these lists.
-/

import RankingEval.Number.Coordinate

namespace RankingEval.Curve

open RankingEval.Number

/-- A point of a curve. -/
structure Point (α : Type) where
  /-- The horizontal coordinate. -/
  x : α
  /-- The vertical coordinate. -/
  y : α
deriving Repr, DecidableEq

variable {α : Type} [Coordinate α]

/-- The step from `b` to `c` continues the step from `a` to `b`: it turns by no more than the
tolerance, and it does not double back. -/
def continuesForward (tolerance : α) (a b c : Point α) : Bool :=
  let lastX := b.x - a.x
  let lastY := b.y - a.y
  let nextX := c.x - b.x
  let nextY := c.y - b.y
  Coordinate.turnWithin tolerance lastX lastY nextX nextY && decide (0 ≤ lastX * nextX + lastY * nextY)

/-- Adds a point to a polyline that is listed from its last point backwards. -/
def extend (tolerance : α) : List (Point α) → Point α → List (Point α)
  | b :: a :: rest, c =>
    if continuesForward tolerance a b c then c :: a :: rest else c :: b :: a :: rest
  | points, c => c :: points

/-- The polyline left of a sequence of raw points, in their order. -/
def simplified (tolerance : α) (points : List (Point α)) : List (Point α) :=
  (points.foldl (extend tolerance) []).reverse

/-- The sine of the greatest turn that counts as straight. -/
def straightness : Float := 1e-13

/-- The same bound as an exact number. -/
def exactStraightness : Rat := 1 / 10000000000000

end RankingEval.Curve
