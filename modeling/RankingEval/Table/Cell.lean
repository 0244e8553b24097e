/-
# Cells of a text

What the text of a cell stands for: a mark for a missing cell, a whole number, a number or a truth value.
Numbers are read quickly and not always to the last digit: up to seventeen digits are collected in a
double, which is then scaled by a power of ten.
-/

import RankingEval.Number.Literal
import RankingEval.Text.Case

namespace RankingEval.Cell

open RankingEval.Number

/-- The texts that mark a missing cell. -/
def missingMarks : List String := [
  "", "#N/A", "#N/A N/A", "#NA", "-1.#IND", "-1.#QNAN", "-NaN", "-nan", "1.#IND", "1.#QNAN", "<NA>",
  "N/A", "NA", "NULL", "NaN", "None", "n/a", "nan", "null"]

/-- The cell is missing. -/
def isMissing (s : String) : Bool := missingMarks.contains s

/-- The character is white space between and around cells. -/
def isSpace (c : Char) : Bool := c == ' ' || (9 ≤ c.toNat && c.toNat ≤ 13)

/-- The digits in front, and the rest. -/
def spanAscii (cs : List Char) : List Char × List Char := cs.span fun c => c.isDigit

/-- The number that digits stand for. -/
def digitsValue (ds : List Char) : Nat := ds.foldl (fun n d => 10 * n + (d.toNat - 48)) 0

/-- A cell of a whole number: a sign and digits, with white space around them. -/
def whole? (s : String) : Option Int :=
  let (negative, rest) := spanSign (s.toList.dropWhile isSpace)
  match spanAscii rest with
  | ([], _) => none
  | (digits, rest) =>
    if rest.all isSpace then
      let n : Int := digitsValue digits
      some (if negative then -n else n)
    else none

/-- The most digits that count. -/
def digitLimit : Nat := 17

/-- A power of ten. -/
def power (n : Nat) : Float := Float.ofScientific 1 false n

/-- Adds digits to a number, one after the other. -/
def collect (number : Float) (digits : List Char) : Float :=
  digits.foldl (fun x d => x * 10.0 + Float.ofNat (d.toNat - 48)) number

/-- A number scaled by a power of ten. -/
def scale (number : Float) (exponent : Int) : Float :=
  if 308 < exponent then
    if number == 0.0 then 0.0 else if number < 0.0 then -infinity else infinity
  else if 0 < exponent then number * power exponent.toNat
  else if -308 ≤ exponent then number / power (-exponent).toNat
  else if -616 ≤ exponent then number / power (-308 - exponent).toNat / power 308
  else 0.0

/-- The exponent behind an `e` in either case, and the rest; without digits there is none. -/
def spanExponent (cs : List Char) : Int × List Char :=
  match cs with
  | 'e' :: rest | 'E' :: rest =>
    let (negative, rest) := spanSign rest
    let (digits, rest) := spanAscii rest
    if digits.isEmpty then (0, cs)
    else
      let counted := digits.take digitLimit
      let n : Int := digitsValue counted
      (if negative then -n else n, digits.drop digitLimit ++ rest)
  | _ => (0, cs)

/-- A number in digits, with a point and an exponent if need be, and the rest. -/
def spanNumber? (cs : List Char) : Option (Float × List Char) :=
  let (negative, rest) := spanSign cs
  let (whole, rest) := spanAscii rest
  let front := whole.take digitLimit
  let (fraction, rest) :=
    match rest with
    | '.' :: rest => spanAscii rest
    | _ => ([], rest)
  let back := fraction.take (digitLimit - front.length)
  if front.isEmpty && back.isEmpty then none
  else
    let number := collect (collect 0.0 front) back
    let number := if negative then -number else number
    let (exponent, rest) := spanExponent rest
    let shift : Int := ((whole.length - front.length : Nat) : Int) - back.length
    some (scale number (shift + exponent), rest)

/-- The names of the infinities, in lower case. -/
def infinityNames : List (String × Bool) := [
  ("inf", false), ("+inf", false), ("-inf", true),
  ("infinity", false), ("+infinity", false), ("-infinity", true)]

/-- The text in lower case, as far as ASCII goes. -/
def lowerAscii (s : String) : String := s.map Char.toLower

/-- A cell of a number. -/
def real? (s : String) : Option Float :=
  let named := (infinityNames.lookup (lowerAscii s)).map fun negative =>
    if negative then -infinity else infinity
  match spanNumber? (s.toList.dropWhile isSpace) with
  | some (x, rest) => if rest.all isSpace then some x else named
  | none => named

/-- A cell of a truth value. -/
def truth? (s : String) : Option Bool :=
  if lowerAscii s == "true" then some true else if lowerAscii s == "false" then some false else none

end RankingEval.Cell
