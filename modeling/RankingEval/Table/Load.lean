/-
# Loading tables

A table is loaded from a file of columns or of delimited text. It has to hold every column that the
schema names, and no identifier twice.
-/

import RankingEval.Files.Tree
import RankingEval.Journal
import RankingEval.Number.Layout
import RankingEval.Table.Delimited
import RankingEval.Table.Header
import RankingEval.Table.Inferred

namespace RankingEval.Table

/-- The columns of records, under the names of a header. Where records are wider than the header, their
first fields have no name and are left out. -/
def ofRecords (header : List String) (rows : List (List String)) : Table :=
  let names := Header.unique header
  let surplus := ((rows.head?.map List.length).getD header.length) - header.length
  ⟨(names.zip (List.range names.length)).map fun (name, i) =>
    (name, .ofTexts (rows.map fun row => row.getD (surplus + i) ""))⟩

/-- The table that delimited text stands for. -/
def ofText (s : String) : Except Failure Table := do
  let (header, rows) ← Delimited.headed (← Delimited.records s)
  return ofRecords header rows

/-- The table in a file; the name of the file tells its format. -/
def ofFile (path : Path) (node : Files.Node) : Except Failure Table :=
  match node, path.suffix == ".parquet" with
  | .table t, true => .ok t
  | .text s, false => ofText s
  | .directory, _ => .error .isDirectory
  | _, _ => .error .wrongFormat

/-- The columns that a schema names, in order. -/
def required (s : Schema) : List Datum :=
  s.idColumn :: s.labelColumn :: (s.scoreColumns ++ s.orderingColumns)

/-- The table has a column of the name. -/
def has (t : Table) (name : Datum) : Bool := (t.find name).isOk

/-- Takes a datum to those that were seen, or counts it if it is among them. Data without a key are compared
item by item. -/
def takeSeen (state : List (Option Key × Datum) × Nat) (d : Datum) : List (Option Key × Datum) × Nat :=
  let (seen, count) := state
  let key := d.key?
  if seen.any fun (k, e) => k == key && (key.isSome || e.same d) then (seen, count + 1)
  else ((key, d) :: seen, count)

/-- The number of data that occur among those before them. -/
def repetitions (cells : List Datum) : Nat := (cells.foldl takeSeen ([], 0)).2

/-- The table satisfies a schema that was read for the file at a path. -/
def check (t : Table) (path : Path) (s : Schema) : Except Failure Unit := do
  if !(required s).all (·.key?.isSome) then throw .mistyped
  let absent := (required s).filter fun name => !t.has name
  if !absent.isEmpty then throw (.columnsMissing path.toString absent)
  let (_, ids) ← t.find s.idColumn
  let repeated := repetitions ids.cells
  if repeated != 0 then throw (.identifiersRepeated s.idColumn.asText repeated)

/-- Loads the table that a schema describes, and reports its size. -/
def load (files : Files.Tree) (s : Schema) : Except Failure (Table × Journal) := do
  let path := s.dataPath
  if !files.reaches path then throw (.dataFileMissing path.toString)
  let table ← ofFile path (← files.find path)
  table.check path s
  return (table, [⟨.info, .loading,
    "Loaded " ++ Number.grouped table.rowCount ++ " rows from " ++ path.toString⟩])

end RankingEval.Table
