/-
# Columns of text cells

The column that the texts of its cells stand for. Readings are tried in turn: whole numbers of 64 bits,
numbers, truth values, texts. Whole numbers beyond 64 bits are kept as they are in a mixed column, unless
something among them is no whole number; then all cells are texts, the marks of missing cells too.
-/

import RankingEval.Table.Cell
import RankingEval.Table.Column

namespace RankingEval.Cell

open RankingEval.Number

/-- A cell read as a whole number between bounds. -/
inductive Bounded where
  /-- A number within the bounds. -/
  | within (n : Int)
  /-- A number beyond the bounds. -/
  | beyond
  /-- No whole number. -/
  | none
deriving DecidableEq, Repr

/-- Reads a cell as a whole number between bounds; digits that lead beyond them decide before anything
behind them is seen. -/
def bounded (low high : Int) (s : String) : Bounded :=
  let (negative, rest) := spanSign (s.toList.dropWhile isSpace)
  match spanAscii rest with
  | ([], _) => .none
  | (digits, rest) =>
    let magnitude : Int := digitsValue digits
    let n := if negative then -magnitude else magnitude
    if n < low || high ≤ n then .beyond
    else if rest.all isSpace then .within n else .none

/-- A cell read as a whole number of 64 bits with a sign. -/
def signed (s : String) : Bounded := bounded (-Nat.pow 2 63) (Nat.pow 2 63) s

/-- The cell is a negative number by its first character. -/
def isNegative (s : String) : Bool := (s.toList.dropWhile isSpace).head? == some '-'

/-- A cell read as a whole number of 64 bits without a sign; what starts with a minus is let through. -/
def unsigned (s : String) : Bounded := if isNegative s then .within 0 else bounded 0 (Nat.pow 2 64) s

/-- The first reading that is not within the bounds. -/
def firstBad (readings : List Bounded) : Option Bounded :=
  readings.find? fun
    | .within _ => false
    | _ => true

/-- How a cell decides, while it is run through, whether its column holds numbers with a fraction: by a
point, or by an exponent behind a digit. What is no number decides that it does not. -/
def looksReal : Bool → List Char → Option Bool
  | _, [] => none
  | seen, c :: rest =>
    if c == '.' then some true
    else if seen then if c == 'e' || c == 'E' then some true else looksReal true rest
    else if c == ' ' || c == '+' || c == '-' then looksReal false rest
    else if c.isDigit then looksReal true rest else some false

/-- The cells look like numbers with a fraction. -/
def lookReal (cells : List String) : Bool := (cells.findSome? fun s => looksReal false s.toList) == some true

/-- A whole number of any size, with separators between digits. -/
def anyWhole? (s : String) : Option Int :=
  let trimmed := ((s.toList.dropWhile isSpace).reverse.dropWhile isSpace).reverse
  let (negative, digits) := spanSign trimmed
  if digits.all fun c => c.isDigit || c == '_' then
    match dropSeparators? digits with
    | some (d :: ds) =>
      let n : Int := digitsValue (d :: ds)
      some (if negative then -n else n)
    | _ => none
  else none

end RankingEval.Cell

namespace RankingEval.Column

open RankingEval.Number RankingEval.Cell

/-- A column of present cells, with NaN in the place of each missing one. -/
def withGaps (kind : Kind) (cells : List String) (read : String → Datum) : Column :=
  ⟨kind, cells.map fun s => if Cell.isMissing s then .float notANumber else read s⟩

/-- A column of texts in which nothing is missing. -/
def asTexts (cells : List String) : Column := ⟨.text, cells.map .text⟩

/-- A whole number among missing cells. The least one is the mark of a missing cell itself. -/
def wholeAsReal (n : Int) : Datum :=
  let x := toReal (.int n)
  .float (if x == toReal (.int (-Nat.pow 2 63)) then notANumber else x)

/-- The column of whole numbers within the bounds of one reading. -/
def ofWhole (cells : List String) : Column :=
  let number (s : String) : Int := (whole? s).getD 0
  if cells.any Cell.isMissing then withGaps .real cells fun s => wholeAsReal (number s)
  else ⟨.whole, cells.map fun s => .int (number s)⟩

/-- The column of whole numbers of any size. -/
def ofAnyWhole (cells present : List String) : Column :=
  if present.all fun s => (anyWhole? s).isSome then
    withGaps .mixed cells fun s => .int ((anyWhole? s).getD 0)
  else asTexts cells

/-- The column of cells some of which are beyond 64 bits with a sign, unless it holds something that is
no whole number. -/
def ofLargeWhole? (cells present : List String) : Option Column :=
  match firstBad (present.map unsigned) with
  | some .none => none
  | some _ => some (ofAnyWhole cells present)
  | none =>
    let negative := present.any isNegative
    let large := present.any fun s => !isNegative s && signed s == .beyond
    if large && (negative || present.length != cells.length) then some (asTexts cells)
    else if negative then some (ofAnyWhole cells present)
    else some (ofWhole cells)

/-- The column of cells of whole numbers. -/
def ofWhole? (cells present : List String) : Option Column :=
  if lookReal present then none
  else
    match firstBad (present.map signed) with
    | none => some (ofWhole cells)
    | some .beyond => ofLargeWhole? cells present
    | some _ => none

/-- The column of cells of numbers. -/
def ofReal? (cells present : List String) : Option Column :=
  if present.all fun s => (real? s).isSome then
    some (withGaps .real cells fun s => .float ((real? s).getD notANumber))
  else none

/-- The column of cells of truth values. -/
def ofTruth? (cells present : List String) : Option Column :=
  if present.all fun s => (truth? s).isSome then
    some (withGaps (if present.length = cells.length then .truth else .mixed) cells fun s =>
      .bool ((truth? s).getD false))
  else none

/-- The column that the texts of its cells stand for. -/
def ofTexts (cells : List String) : Column :=
  let present := cells.filter fun s => !Cell.isMissing s
  if cells.isEmpty then ⟨.mixed, []⟩
  else
    ((ofWhole? cells present).orElse fun _ =>
      (ofReal? cells present).orElse fun _ => ofTruth? cells present).getD
      (withGaps .text cells .text)

end RankingEval.Column
