/-
# Columns

A column holds cells of one kind. The kind is inferred from the values: whole numbers, numbers, truth
values or texts as long as all cells fit, and a mixed column otherwise. A missing cell makes numbers of
whole numbers, and is stored as NaN among numbers and texts; a mixed column keeps its cells as they are.
-/

import RankingEval.Datum.Numeric
import RankingEval.Datum.Shown
import RankingEval.Ranking.Item

namespace RankingEval

open RankingEval.Number

namespace Column

/-- What the cells of a column have in common. -/
inductive Kind where
  /-- Whole numbers of 64 bits. -/
  | whole
  /-- Doubles. -/
  | real
  /-- Truth values. -/
  | truth
  /-- Texts, or NaN where one is missing. -/
  | text
  /-- Nothing. -/
  | mixed
deriving DecidableEq, Repr

end Column

/-- A column of a table. -/
structure Column where
  /-- What the cells have in common. -/
  kind : Column.Kind
  /-- The cells from the first row to the last. -/
  cells : List Datum

namespace Column

/-- The cell is a whole number. -/
def isWhole : Datum → Bool
  | .int _ => true
  | _ => false

/-- The cell is a truth value. -/
def isTruth : Datum → Bool
  | .bool _ => true
  | _ => false

/-- The cell is a text. -/
def isText : Datum → Bool
  | .text _ => true
  | _ => false

/-- The cell is a number. -/
def isNumber : Datum → Bool
  | .int _ | .float _ => true
  | _ => false

/-- The cell is present. -/
def isPresent : Datum → Bool
  | .missing => false
  | _ => true

/-- Whole numbers fit in 64 bits together: either all with a sign or all without one. -/
def fitTogether (cells : List Datum) : Bool :=
  let within (low high : Int) : Bool := cells.all fun
    | .int n => decide (low ≤ n) && decide (n < high)
    | _ => true
  within (-Nat.pow 2 63) (Nat.pow 2 63) || within 0 (Nat.pow 2 64)

/-- A cell as a double, where missing cells and the largest numbers are out of reach. -/
def toReal (d : Datum) : Float :=
  match d.stored with
  | .ok x => x
  | .error _ => notANumber

/-- A cell of a column of texts. -/
def orNaN (d : Datum) : Datum := if isText d then d else .float notANumber

/-- The column of some values, with the kind inferred from them. -/
def infer (cells : List Datum) : Column :=
  if !cells.any isPresent then ⟨.mixed, cells⟩
  else if cells.all isWhole && fitTogether cells then ⟨.whole, cells⟩
  else if cells.all isTruth then ⟨.truth, cells⟩
  else if (cells.all fun d => isNumber d || !isPresent d) && !cells.all isWhole
      && fitTogether (cells.takeWhile isPresent) then
    ⟨.real, cells.map fun d => .float (toReal d)⟩
  else if (cells.all fun d => isText d || d.isMissing) && cells.any isText then
    ⟨.text, cells.map orNaN⟩
  else ⟨.mixed, cells⟩

/-- The number of rows. -/
def size (c : Column) : Nat := c.cells.length

/-- The text of a cell; a missing one has none. -/
def textOf (d : Datum) : Option String := if d.isMissing then none else some d.asText

/-- The texts of the cells. -/
def texts (c : Column) : List (Option String) := c.cells.map textOf

/-- The cells as identifiers. In a column of doubles no NaN is equal to another. -/
def identifiers (c : Column) : List Ranking.Identifier :=
  c.cells.map fun d => ⟨d, .of (c.kind == .real) d⟩

/-- The cells as scores; numerals among the texts are read. -/
def scores (c : Column) : Except Failure (List Float) := c.cells.mapM Datum.stored

end Column

end RankingEval
