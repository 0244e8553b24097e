/-
# Tables

A table holds columns of equal length under their names. Once its rows are named by the identifiers of
one column, that column is no longer among the others.
-/

import RankingEval.Config.Schema
import RankingEval.Named
import RankingEval.Ranking.Basic
import RankingEval.Table.Labels

namespace RankingEval

/-- Columns of equal length under their names. -/
structure Table where
  /-- The columns from left to right. -/
  columns : List (String × Column)

namespace Table

/-- The table of some values, where each column has the kind that its values suggest and a later column
hides an earlier one of the same name. -/
def ofValues (columns : List (String × List Datum)) : Table :=
  ⟨columns.foldl (fun kept (name, cells) => putName kept name (.infer cells)) []⟩

/-- The number of rows. -/
def rowCount (t : Table) : Nat :=
  match t.columns with
  | [] => 0
  | (_, column) :: _ => column.size

/-- The column of a name. -/
def column? (t : Table) (name : String) : Option Column := t.columns.lookup name

/-- The column that a datum names, and the name. Sequences and mappings name none. -/
def find (t : Table) (name : Datum) : Except Failure (String × Column) :=
  match name with
  | .text s =>
    match t.column? s with
    | some column => .ok (s, column)
    | none => .error .entryMissing
  | .list _ | .map _ => .error .mistyped
  | _ => .error .entryMissing

/-- The table without a column. -/
def without (t : Table) (name : String) : Table := ⟨t.columns.filter fun c => c.1 != name⟩

/-- The rankings of the score columns of a schema, numbered from `number` on. -/
def scorings (t : Table) (schema : Schema) (ids : Column) (number : Nat) :
    List Datum → Except Failure (List Ranking)
  | [] => .ok []
  | name :: rest => do
    let (title, values) ← t.find name
    let ascending := Schema.isAmong schema.ascendingColumns name
    let scoring ← Ranking.Scoring.ofColumns number title ascending ids values
    return .scoring scoring :: (← scorings t schema ids (number + 1) rest)

/-- The rankings of columns of positions, numbered from `number` on. -/
def orders (t : Table) (ids : Column) (number : Nat) : List Datum → Except Failure (List Ranking)
  | [] => .ok []
  | name :: rest => do
    let (title, positions) ← t.find name
    let order ← Ranking.Order.ofColumns number title ids positions
    return .order order :: (← orders t ids (number + 1) rest)

/-- The labels of a table and the rankings that its columns give, those with scores first. -/
def rankings (t : Table) (schema : Schema) : Except Failure (Labels × List Ranking) := do
  let (idName, ids) ← t.find schema.idColumn
  let others := t.without idName
  let (_, labels) ← others.find schema.labelColumn
  let scored ← others.scorings schema ids 0 schema.scoreColumns
  let ordered ← others.orders ids scored.length schema.orderingColumns
  return (.ofTexts ids labels.texts, scored ++ ordered)

end Table

end RankingEval
