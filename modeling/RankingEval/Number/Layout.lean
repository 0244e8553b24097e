/-
# Numbers as text

The three written forms of a number that results show: the natural form of a double, which is the
shortest that reads back; a fixed number of decimal places, rounded from the exact value with ties
to even; and a count with its digits grouped in threes.
-/

import RankingEval.Number.Shortest

namespace RankingEval.Number

/-- The decisions behind the natural form of a double. -/
structure FloatFormat where
  /-- The least exponent of the leading digit that is written positionally. -/
  plainFrom : Int
  /-- The first exponent of the leading digit that is no longer written positionally. -/
  plainBelow : Int
  /-- The least number of digits of a written exponent. -/
  exponentWidth : Nat
  /-- The text of NaN. -/
  nan : String
  /-- The text of positive infinity. -/
  infinite : String

/-- Coordinates, areas and labels are positional from `1e-4` up to but excluding `1e16`, integral
values keep `.0`, and other exponents carry a sign and two digits. -/
def natural : FloatFormat where
  plainFrom := -4
  plainBelow := 16
  exponentWidth := 2
  nan := "nan"
  infinite := "inf"

/-- Digits of a natural number, padded with zeros on the left. -/
def padded (width n : Nat) : String :=
  let text := toString n
  String.ofList (List.replicate (width - text.length) '0') ++ text

/-- Lays a decimal out. -/
def FloatFormat.layout (f : FloatFormat) (c : Decimal) : String :=
  let digits := toString c.digits
  let count : Int := digits.length
  let lead := c.exponent + count - 1
  if f.plainFrom ≤ lead && lead < f.plainBelow then
    if 0 ≤ c.exponent then
      digits ++ String.ofList (List.replicate c.exponent.toNat '0') ++ ".0"
    else if lead < 0 then
      "0." ++ String.ofList (List.replicate (-lead - 1).toNat '0') ++ digits
    else
      let whole := (lead + 1).toNat
      String.ofList (digits.toList.take whole) ++ "." ++ String.ofList (digits.toList.drop whole)
  else
    let head := String.ofList (digits.toList.take 1)
    let tail := String.ofList (digits.toList.drop 1)
    head ++ (if tail.isEmpty then "" else "." ++ tail) ++ "e" ++ (if lead < 0 then "-" else "+")
      ++ padded f.exponentWidth lead.natAbs

/-- The text of a double in a given format. -/
def FloatFormat.text (f : FloatFormat) (x : Float) : String :=
  match Binary64.ofFloat x with
  | .nan => f.nan
  | .infinite negative => (if negative then "-" else "") ++ f.infinite
  | .finite d =>
    (if d.negative then "-" else "") ++ f.layout (if d.isZero then ⟨0, 0⟩ else d.shortest)

/-- The natural text of a double: the fewest digits that read back to it. -/
def text (x : Float) : String := natural.text x

/-- The integer nearest to `num / den`; a tie goes to the even neighbour. -/
def roundDiv (num den : Nat) : Nat :=
  let quotient := num / den
  match compare (2 * (num % den)) den with
  | .lt => quotient
  | .gt => quotient + 1
  | .eq => if quotient % 2 == 0 then quotient else quotient + 1

/-- The text of a double with a fixed number of places, rounded from its exact value. -/
def fixed (places : Nat) (x : Float) : String :=
  match Binary64.ofFloat x with
  | .nan => natural.nan
  | .infinite negative => (if negative then "-" else "") ++ natural.infinite
  | .finite d =>
    let scaled :=
      roundDiv (d.mantissa * Nat.pow 2 d.exponent.toNat * Nat.pow 10 places)
        (Nat.pow 2 (-d.exponent).toNat)
    let digits := (padded (places + 1) scaled).toList
    let whole := digits.length - places
    (if d.negative then "-" else "") ++ String.ofList (digits.take whole)
      ++ (if places == 0 then "" else "." ++ String.ofList (digits.drop whole))

/-- Digits in groups of three from the right, with a comma between groups. -/
private def groupThrees : List Char → List Char
  | a :: b :: c :: d :: rest => a :: b :: c :: ',' :: groupThrees (d :: rest)
  | rest => rest

/-- A count with its thousands separated by commas. -/
def grouped (n : Nat) : String :=
  String.ofList (groupThrees (toString n).toList.reverse).reverse

end RankingEval.Number
