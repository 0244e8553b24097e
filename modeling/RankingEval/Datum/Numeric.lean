/-
# Data as numbers

The three ways in which a datum becomes a double. A score is read from numbers, truth values and
numerals. A stored coordinate or a column of scores takes a missing value as NaN besides. An operand of
arithmetic is a number and nothing else.
-/

import RankingEval.Failure
import RankingEval.Number.Literal

namespace RankingEval.Datum

open RankingEval.Number

/-- A truth value as a number. -/
def ofBool (b : Bool) : Float := if b then 1.0 else 0.0

/-- The double nearest to a whole number. -/
def ofInt (n : Int) : Except Failure Float :=
  match ofInt? n with
  | some x => .ok x
  | none => .error .tooLarge

/-- The double that a numeral stands for. -/
def ofNumeral (s : String) : Except Failure Float :=
  match readFloat? s with
  | some x => .ok x
  | none => .error .unreadable

/-- A number, as arithmetic takes it. -/
def operand : Datum → Except Failure Float
  | bool b => .ok (ofBool b)
  | int n => ofInt n
  | float x => .ok x
  | _ => .error .mistyped

/-- A score: a number, a truth value or a numeral. -/
def score : Datum → Except Failure Float
  | text s => ofNumeral s
  | d => d.operand

/-- A number to be stored: a missing one is stored as NaN, and what is no scalar cannot be read. -/
def stored : Datum → Except Failure Float
  | missing => .ok notANumber
  | list _ => .error .unreadable
  | d => d.score

/-- A whole number for a size: fractions are cut off, numerals of whole numbers are read. -/
def size : Datum → Except Failure Int
  | bool b => .ok (if b then 1 else 0)
  | int n => .ok n
  | float x =>
    match Binary64.ofFloat x with
    | .nan => .error .unreadable
    | .infinite _ => .error .tooLarge
    | .finite d =>
      let magnitude : Int :=
        d.mantissa * Nat.pow 2 d.exponent.toNat / Nat.pow 2 (-d.exponent).toNat
      .ok (if d.negative then -magnitude else magnitude)
  | text s =>
    match readInt? s with
    | some n => .ok n
    | none => .error .unreadable
  | _ => .error .mistyped

end RankingEval.Datum
