/-
# Reading numbers

Decimal literals and the doubles nearest to them. `readFloat?` takes what a person may type for a
score: white space around it, digits of any script, single underscores between digits, and the names
of the infinities and of NaN. `readInt?` takes a whole number typed in the same way.
-/

import RankingEval.Number.Binary64
import RankingEval.Text.DecimalDigit

namespace RankingEval.Number

open RankingEval.Text

/-- A run of ASCII digits at the front: its value, its length, and what follows it. -/
def spanDigits : List Char → Nat × Nat × List Char :=
  go 0 0
where
  /-- Adds the digits at the front to a value and a length. -/
  go (value count : Nat) : List Char → Nat × Nat × List Char
    | [] => (value, count, [])
    | c :: rest =>
      if c.isDigit then go (10 * value + (c.toNat - 48)) (count + 1) rest
      else (value, count, c :: rest)

/-- The number of decimal digits of a natural number, at most one too many. -/
private def digitBound (n : Nat) : Nat := n.log2 * 30103 / 100000 + 1

/-- The double nearest to `digits · 10 ^ exponent`. Beyond the greatest double the answer is infinite;
below half of the least one it is zero. -/
def ofDecimal (digits : Nat) (exponent : Int) : Float :=
  if digits = 0 then 0.0
  else
    let size : Int := digitBound digits
    if size + exponent > 400 then infinity
    else if size + exponent < -400 then 0.0
    else Float.ofScientific digits (exponent < 0) exponent.natAbs

/-- A decimal literal without a sign: its digits, its exponent, and what follows it. At least one digit
stands beside the point, and the exponent mark counts only with digits behind it. -/
def spanDecimal? (cs : List Char) : Option (Nat × Int × List Char) :=
  let (whole, wholeCount, rest) := spanDigits cs
  let (digits, places, count, rest) :=
    match rest with
    | '.' :: behind =>
      let (value, count, behind) := spanDigits behind
      (whole * Nat.pow 10 count + value, count, wholeCount + count, behind)
    | _ => (whole, 0, wholeCount, rest)
  if count = 0 then none
  else
    let plain := some (digits, -(places : Int), rest)
    match rest with
    | mark :: behind =>
      if mark == 'e' || mark == 'E' then
        let (negative, tail) := match behind with
          | '-' :: tail => (true, tail)
          | '+' :: tail => (false, tail)
          | _ => (false, behind)
        let (value, count, tail) := spanDigits tail
        if count = 0 then plain
        else
          let shift : Int := if negative then -(value : Int) else value
          some (digits, shift - places, tail)
      else plain
    | [] => plain

/-- Splits off a sign. -/
def spanSign : List Char → Bool × List Char
  | '-' :: rest => (true, rest)
  | '+' :: rest => (false, rest)
  | rest => (false, rest)

/-- Reads a decimal literal that fills the whole text. -/
def ofLiteral? (cs : List Char) : Option Float :=
  let (negative, rest) := spanSign cs
  let lowered := String.ofList (rest.map Char.toLower)
  let magnitude :=
    if lowered == "inf" || lowered == "infinity" then some infinity
    else if lowered == "nan" then some notANumber
    else match spanDecimal? rest with
      | some (digits, exponent, []) => some (ofDecimal digits exponent)
      | _ => none
  magnitude.map fun x => if negative then -x else x

/-- Removes underscores that stand between two digits; any other underscore is refused. -/
def dropSeparators? : List Char → Option (List Char) :=
  go false
where
  /-- Carries whether the character before was a digit. -/
  go (afterDigit : Bool) : List Char → Option (List Char)
    | [] => some []
    | '_' :: d :: rest =>
      if afterDigit && d.isDigit then (go true rest).map (d :: ·) else none
    | c :: rest => if c == '_' then none else (go c.isDigit rest).map (c :: ·)

/-- Digits of every script as ASCII digits, white space of every script beyond ASCII as a plain space. -/
def plainDigits (cs : List Char) : List Char :=
  cs.map fun c =>
    match digitValue? c with
    | some v => Char.ofNat (48 + v)
    | none => if 127 < c.toNat && isBlank c then ' ' else c

/-- The characters of a numeral as typed by a person: white space around it and separators between its
digits are left out. -/
def numeral? (s : String) : Option (List Char) :=
  dropSeparators? (trim isAsciiBlank (plainDigits s.toList))

/-- Reads a double from text as typed by a person. -/
def readFloat? (s : String) : Option Float := (numeral? s).bind ofLiteral?

/-- Reads a whole number from text as typed by a person. -/
def readInt? (s : String) : Option Int := do
  let (negative, rest) := spanSign (← numeral? s)
  match spanDigits rest with
  | (value, count, []) => if count = 0 then none else some (if negative then -(value : Int) else value)
  | _ => none

end RankingEval.Number
