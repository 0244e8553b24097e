/-
# The length of the hypotenuse

The square root of a sum of two squares, rounded better than the operations of doubles alone would round
it. The sides are scaled by a power of two, so that no square is out of range, each side is split in two
halves whose products are exact, and what the additions lose is collected beside the sum. The root is then
corrected once by what its own square leaves of the sum.
-/

import RankingEval.Number.Binary64

namespace RankingEval.Number

/-- A double as a sum of two with half as many digits. -/
def halves (x : Float) : Float × Float :=
  let t := x * 134217729.0
  let high := t - (t - x)
  (high, x - high)

/-- A sum with one more term that is no greater, and what is lost by rounding it. -/
def addKeeping (sum x : Float) : Float × Float :=
  let next := sum + x
  (next, (sum - next) + x)

/-- A sum of squares of doubles below one. The total starts at one, so that no term is greater. -/
structure SquareSum where
  /-- The total so far. -/
  total : Float := 1.0
  /-- What was lost of the squares of high halves. -/
  lostHigh : Float := 0.0
  /-- What was lost of the products of both halves. -/
  lostMixed : Float := 0.0
  /-- The squares of low halves, none of which would change the total. -/
  low : Float := 0.0

namespace SquareSum

/-- The sum with one more square. -/
def add (s : SquareSum) (x : Float) : SquareSum :=
  let (high, low) := halves x
  let (total, lostHigh) := addKeeping s.total (high * high)
  let (total, lostMixed) := addKeeping total (2.0 * high * low)
  ⟨total, s.lostHigh + lostHigh, s.lostMixed + lostMixed, s.low + low * low⟩

/-- What is left of the sum without a square of about its size. -/
def sub (s : SquareSum) (x : Float) : SquareSum :=
  let (high, low) := halves x
  let (total, lostHigh) := addKeeping s.total (-high * high)
  let (total, lostMixed) := addKeeping total (-2.0 * high * low)
  let (total, lostLow) := addKeeping total (-low * low)
  ⟨total, s.lostHigh + lostHigh, s.lostMixed + lostMixed, s.low + lostLow⟩

/-- The sum as a double. -/
def value (s : SquareSum) : Float := s.total - 1.0 + (s.lostHigh + s.lostMixed + s.low)

end SquareSum

/-- The hypotenuse over sides of which `larger` is the greater one. A power of two that is too small has no
inverse among doubles, and then the sides are divided by the greater one instead. -/
def hypotenuseWithin (larger a b : Float) : Float :=
  let exponent := larger.frExp.2
  if exponent < -1023 then
    let a := a / larger
    let b := b / larger
    let (sum, lostFirst) := addKeeping 1.0 (a * a)
    let (sum, lostSecond) := addKeeping sum (b * b)
    larger * Float.sqrt (sum - 1.0 + (0.0 + lostFirst + lostSecond))
  else
    let scale := Float.scaleB 1.0 (-exponent)
    let sum := (({} : SquareSum).add (a * scale)).add (b * scale)
    let root := Float.sqrt sum.value
    (root + (sum.sub root).value / (2.0 * root)) / scale

/-- The length of the hypotenuse. Infinity wins over NaN. -/
def hypotenuse (a b : Float) : Float :=
  let a := a.abs
  let b := b.abs
  if a.isInf || b.isInf then infinity
  else if a.isNaN || b.isNaN then notANumber
  else
    let larger := if a < b then b else a
    if larger == 0.0 then 0.0 else hypotenuseWithin larger a b

end RankingEval.Number
