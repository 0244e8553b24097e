/-
# The fewest decimal digits that identify a double

`Dyadic.shortest` finds the decimal with the fewest digits among the reals that round to a given
double; of two such decimals it takes the nearer one, and of two equally near ones the one whose
last digit is even. The search compares naturals by cross-multiplication, so no rounding enters it.
How the digits are laid out is decided elsewhere.
-/

import RankingEval.Number.Binary64

namespace RankingEval.Number

/-- A decimal, `digits · 10 ^ exponent`. -/
structure Decimal where
  /-- The digits as one natural number. -/
  digits : Nat
  /-- The power of ten that scales them. -/
  exponent : Int
deriving Repr, DecidableEq

/-- Compares `a · 10 ^ i` with `n · 2 ^ j`, exactly. -/
def compareScaled (a : Nat) (i : Int) (n : Nat) (j : Int) : Ordering :=
  compare (a * Nat.pow 10 i.toNat * Nat.pow 2 (-j).toNat) (n * Nat.pow 2 j.toNat * Nat.pow 10 (-i).toNat)

/-- The decimal lies among the reals that round to the magnitude of the double. The ends of that
interval belong to it exactly when the mantissa is even. -/
def Dyadic.readsBack (d : Dyadic) (c : Decimal) : Bool :=
  let low := if d.narrowBelow then 4 * d.mantissa - 1 else 4 * d.mantissa - 2
  let high := 4 * d.mantissa + 2
  let closed := d.mantissa % 2 == 0
  let atLow := compareScaled c.digits c.exponent low (d.exponent - 2)
  let atHigh := compareScaled c.digits c.exponent high (d.exponent - 2)
  (atLow == .gt || (closed && atLow == .eq)) && (atHigh == .lt || (closed && atHigh == .eq))

/-- The magnitude divided by `10 ^ e`, rounded down. -/
def Dyadic.floorAt (d : Dyadic) (e : Int) : Nat :=
  d.mantissa * Nat.pow 2 d.exponent.toNat * Nat.pow 10 (-e).toNat
    / (Nat.pow 2 (-d.exponent).toNat * Nat.pow 10 e.toNat)

/-- A lower estimate of the decimal order of magnitude, from the binary one. -/
private def Dyadic.orderEstimate (d : Dyadic) : Int :=
  (((d.mantissa.log2 : Int) + d.exponent) * 30103 / 100000) - 1

/-- The least `k` with magnitude below `10 ^ k`, for a nonzero double. -/
def Dyadic.order (d : Dyadic) : Int :=
  let start := d.orderEstimate
  let beyond (k : Int) : Bool := compareScaled 1 k d.mantissa d.exponent == .gt
  ((List.range 5).map fun (i : Nat) => start + (i : Int)).find? beyond |>.getD (start + 5)

/-- The better of the two neighbours of the magnitude on the grid of step `10 ^ e`, if one of them
reads back. -/
def Dyadic.onGrid (d : Dyadic) (e : Int) : Option Decimal :=
  let below : Decimal := ⟨d.floorAt e, e⟩
  let above : Decimal := ⟨d.floorAt e + 1, e⟩
  match d.readsBack below, d.readsBack above with
  | false, false => none
  | true, false => some below
  | false, true => some above
  | true, true =>
    -- twice the magnitude against the sum of the two candidates
    match compareScaled (below.digits + above.digits) e (2 * d.mantissa) d.exponent with
    | .gt => some below
    | .lt => some above
    | .eq => some (if below.digits % 2 == 0 then below else above)

/-- The magnitude itself, written out in full. -/
def Dyadic.exactDecimal (d : Dyadic) : Decimal :=
  if d.exponent < 0 then ⟨d.mantissa * Nat.pow 5 (-d.exponent).toNat, d.exponent⟩
  else ⟨d.mantissa * Nat.pow 2 d.exponent.toNat, 0⟩

/-- Moves trailing zeros of the digits into the exponent, at most `n` of them. -/
def Decimal.trimmed : Nat → Decimal → Decimal
  | 0, c => c
  | n + 1, c =>
    if c.digits % 10 == 0 && c.digits != 0 then trimmed n ⟨c.digits / 10, c.exponent + 1⟩ else c

/-- The shortest decimal that reads back to a nonzero double. Seventeen digits suffice for every
double; were they ever not to, the exact decimal is the answer. -/
def Dyadic.shortest (d : Dyadic) : Decimal :=
  let k := d.order
  let found := (List.range 17).findSome? fun (n : Nat) => d.onGrid (k - 1 - (n : Int))
  (found.getD d.exactDecimal).trimmed 20

end RankingEval.Number
