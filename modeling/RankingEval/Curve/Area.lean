/-
# Area under a polyline

The area under a polyline by the trapezoidal rule, taken in the direction in which the polyline runs.
A polyline that runs forward at one step and back at another has no area. The strips are summed in
blocks.
-/

import RankingEval.Curve.Polyline
import RankingEval.Number.BlockedSum

namespace RankingEval.Curve

open RankingEval.Number

variable {α : Type} [Coordinate α]

/-- The horizontal steps between neighbouring points. -/
def widths : List (Point α) → List α
  | a :: b :: rest => (b.x - a.x) :: widths (b :: rest)
  | _ => []

/-- The area of the strip below the segment between two points. -/
def strip (a b : Point α) : α := (b.x - a.x) * (b.y + a.y) / ((2 : Nat) : α)

/-- The areas of the strips between neighbouring points. -/
def strips : List (Point α) → List α
  | a :: b :: rest => strip a b :: strips (b :: rest)
  | _ => []

/-- The polyline runs back at some step and forward, or by an undefined amount, at another. -/
def doublesBack (points : List (Point α)) : Bool :=
  (widths points).any (fun w => decide (w < 0)) && !(widths points).all fun w => decide (w ≤ 0)

/-- The area under a polyline, if it keeps to one direction; fewer than two points have none. -/
def area? (points : List (Point α)) : Option α :=
  if points.length < 2 then some 0
  else if doublesBack points then none
  else
    let total := blockedSum (strips points)
    some (if (widths points).any fun w => decide (w < 0) then -total else total)

end RankingEval.Curve
