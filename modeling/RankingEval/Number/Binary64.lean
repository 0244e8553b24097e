/-
# Doubles as exact numbers

A finite double is an integer times a power of two. This module reads that integer and that
exponent off the bits, so that printing, rounding and comparing a double can be done with exact
natural-number arithmetic. Nothing here depends on how a double is printed.
-/

namespace RankingEval.Number

/-- A finite double, `± mantissa · 2 ^ exponent`. -/
structure Dyadic where
  /-- The sign bit, which is also set for negative zero. -/
  negative : Bool
  /-- The integer significand. -/
  mantissa : Nat
  /-- The binary exponent of the integer significand. -/
  exponent : Int
  /-- The gap to the neighbour below is half the gap to the neighbour above. -/
  narrowBelow : Bool
deriving Repr, DecidableEq

/-- What the bits of a double stand for. -/
inductive Binary64 where
  /-- A finite number. -/
  | finite (value : Dyadic)
  /-- One of the two infinities. -/
  | infinite (negative : Bool)
  /-- Not a number. -/
  | nan
deriving Repr, DecidableEq

/-- The sign, exponent and fraction fields of a double, read as a number. -/
def Binary64.ofBits (bits : UInt64) : Binary64 :=
  let negative := bits >>> 63 == 1
  let field := ((bits >>> 52) &&& 0x7FF).toNat
  let fraction := (bits &&& 0xFFFFFFFFFFFFF).toNat
  if field = 0x7FF then
    if fraction = 0 then .infinite negative else .nan
  else if field = 0 then .finite ⟨negative, fraction, -1074, false⟩
  else .finite ⟨negative, Nat.pow 2 52 + fraction, (field : Int) - 1075, fraction == 0 && field > 1⟩

/-- The exact content of a double. -/
def Binary64.ofFloat (x : Float) : Binary64 := Binary64.ofBits x.toBits

/-- The exact value of a finite double. -/
def Dyadic.toRat (d : Dyadic) : Rat :=
  let magnitude : Rat :=
    if d.exponent < 0 then mkRat d.mantissa (Nat.pow 2 (-d.exponent).toNat)
    else ((d.mantissa * Nat.pow 2 d.exponent.toNat : Nat) : Rat)
  if d.negative then -magnitude else magnitude

/-- Zero of either sign has mantissa zero. -/
def Dyadic.isZero (d : Dyadic) : Bool := d.mantissa == 0

/-- The two infinities and the quiet NaN, under names. -/
def infinity : Float := Float.ofBits 0x7FF0000000000000

/-- The value that stands for a missing or undefined number. -/
def notANumber : Float := Float.ofBits 0x7FF8000000000000

/-- The double nearest to an integer, or `none` where it lies beyond the greatest double. -/
def ofInt? (n : Int) : Option Float :=
  -- 2 ^ 1024 is the first power of two out of range; the test keeps the conversion small
  if n.natAbs ≥ Nat.pow 2 1024 then none
  else
    let magnitude := Float.ofScientific n.natAbs false 0
    if magnitude.isInf then none
    else some (if n < 0 then -magnitude else magnitude)

end RankingEval.Number
