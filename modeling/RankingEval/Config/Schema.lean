/-
# What to evaluate

The schema says which table to load and what its columns mean; the positive class says which labels are
to be found. Both are read from sections of a configuration.
-/

import RankingEval.Config.Section
import RankingEval.Files.Path

namespace RankingEval

/-- Where the table is and what its columns mean. -/
structure Schema where
  /-- The file with the table. -/
  dataPath : Path
  /-- The column of identifiers. -/
  idColumn : Datum
  /-- The column of labels. -/
  labelColumn : Datum
  /-- The columns of scores. -/
  scoreColumns : List Datum
  /-- The score columns in which low scores mean more outlying. -/
  ascendingColumns : List Datum
  /-- The columns of positions. -/
  orderingColumns : List Datum

namespace Schema

/-- The table that is loaded if none is named. -/
def defaultPath : Datum := .text "data/scores.csv"

/-- The path that a datum names. -/
def pathOf : Datum → Except Failure Path
  | .text s => .ok (.ofString s)
  | _ => .error .mistyped

/-- The column is in a list. -/
def isAmong (columns : List Datum) (column : Datum) : Bool := columns.any column.same

/-- The schema that a section describes. Every ascending column has to be a score column. -/
def ofDatum (raw fallback : Datum) : Except Failure Schema := do
  let settings ← Section.ofDatum raw
  let ascending ← (settings.get "ascending_columns").sequence
  let scores ← (settings.get "score_columns").sequence
  let unknown := ascending.filter fun column => !isAmong scores column
  if !unknown.isEmpty then throw (.ascendingNotScored unknown)
  return {
    dataPath := ← pathOf ((settings.get? "data_path").getD fallback)
    idColumn := (settings.get? "id_column").getD (.text "id")
    labelColumn := (settings.get? "label_column").getD (.text "label")
    scoreColumns := scores
    ascendingColumns := ascending
    orderingColumns := ← (settings.get "ordering_columns").sequence }

end Schema

/-- The pattern of the labels to be found, as a section gives it. -/
def positiveClass (raw : Datum) : Except Failure String := do
  let pattern := (← Section.ofDatum raw).get "positive_class_name"
  if pattern.isSet then return pattern.asText else throw .positiveClassUnset

end RankingEval
