/-
# Coordinates

Curves are drawn in doubles when an evaluation runs and in rationals when its exact meaning is asked
for. `Coordinate` is what both have in common: ordered arithmetic, and a test that bounds the turn
between two steps without leaving the number type.
-/

import RankingEval.Number.Hypotenuse

namespace RankingEval.Number

/-- A count before any rounding. -/
def exactCount : Nat → Float.Model.UnpackedFloat
  | 0 => .zero .positive
  | n + 1 => .finite .positive (n + 1) 0 n.succ_pos

/-- The double nearest to the quotient of two counts. It is rounded once, so that counts beyond the range
in which every whole number is a double lose nothing before they are divided. -/
def countQuotient (n d : Nat) : Float :=
  .ofModel (.pack (.div .binary64 (exactCount n) (exactCount d)))

/-- Numbers that a curve can be drawn in. -/
class Coordinate (α : Type) extends Zero α, One α, NatCast α, Add α, Sub α, Mul α, Div α, Neg α,
    LE α, LT α where
  /-- The order can be tested. -/
  decidableLE : DecidableLE α
  /-- The strict order can be tested. -/
  decidableLT : DecidableLT α
  /-- The number stands for an undefined result. -/
  isUndefined : α → Bool
  /-- The quotient of two counts. -/
  quotient : Nat → Nat → α
  /-- The cross product of the steps `(a, b)` and `(c, d)` is at most `tolerance` times the product of
  their lengths: the sine of the turn between them is within the tolerance. -/
  turnWithin : (tolerance a b c d : α) → Bool

attribute [reducible, instance] Coordinate.decidableLE Coordinate.decidableLT

/-- Doubles: every operation rounds, and NaN passes no comparison. -/
instance : Coordinate Float where
  zero := 0.0
  one := 1.0
  natCast := Float.ofNat
  decidableLE := inferInstance
  decidableLT := inferInstance
  isUndefined x := x.isNaN
  quotient := countQuotient
  turnWithin tolerance a b c d :=
    (a * d - b * c).abs ≤ tolerance * (hypotenuse a b * hypotenuse c d)

/-- Rationals: the bound on the turn is compared in squares, since lengths need not be rational. For a
tolerance of zero it says that the steps are parallel. -/
instance : Coordinate Rat where
  zero := 0
  one := 1
  decidableLE := inferInstance
  decidableLT := inferInstance
  isUndefined _ := false
  quotient n d := n / d
  turnWithin tolerance a b c d :=
    let cross := a * d - b * c
    cross * cross ≤ tolerance * tolerance * ((a * a + b * b) * (c * c + d * d))

end RankingEval.Number
