/-
# What can go wrong

The causes for which an evaluation stops, and the wording of those that this library words itself. A
cause without a wording of its own is reported by its kind alone.
-/

import RankingEval.Datum.Shown
import RankingEval.Pattern.Fault

namespace RankingEval

/-- Why an operation failed. -/
inductive Failure where
  /-- There are no positives to recall. -/
  | noPositives
  /-- The ranking holds no identifiers although there are positives. -/
  | emptyRanking (positives : Nat)
  /-- The evaluation section names no positive class. -/
  | positiveClassUnset
  /-- Columns are marked as ascending that are no score columns. -/
  | ascendingNotScored (columns : List Datum)
  /-- The table to load does not exist. -/
  | dataFileMissing (path : String)
  /-- The table lacks columns. -/
  | columnsMissing (path : String) (columns : List Datum)
  /-- Identifiers occur more than once. -/
  | identifiersRepeated (column : String) (count : Nat)
  /-- A point was asked for that the curve does not have. -/
  | pointOutOfRange (index : Datum) (count : Nat)
  /-- No distance goes by this name. -/
  | unknownDistance (tag : String)
  /-- The pattern is not a regular expression. -/
  | badPattern (pattern : String) (fault : Pattern.Fault)
  /-- The tracking service refused a call. -/
  | trackingRefused (reason : String)
  /-- A curve that doubles back has no area. -/
  | areaUndefined
  /-- A value of a fitting kind that cannot be read. -/
  | unreadable
  /-- A value of a kind that the operation does not take. -/
  | mistyped
  /-- A whole number beyond the range of doubles. -/
  | tooLarge
  /-- A look-up found no entry. -/
  | entryMissing
  /-- An index of a kind that selects no element. -/
  | notAnIndex
  /-- A value lacks the operation that is asked of it. -/
  | unsupported
  /-- A file does not exist. -/
  | fileMissing
  /-- A directory stands where a file is needed. -/
  | isDirectory
  /-- A file stands where a directory is needed. -/
  | fileInTheWay
  /-- The way to a file leads through another file. -/
  | notADirectory
  /-- A file is not of the format that its name promises. -/
  | wrongFormat
  /-- The rows of a table do not fit its header. -/
  | tableMalformed
  /-- A table file holds nothing. -/
  | tableEmpty
  /-- A document holds characters that no document may hold. -/
  | documentCharacters
  /-- The tokens of a document cannot be told apart. -/
  | documentTokens
  /-- The structure of a document does not close. -/
  | documentStructure
  /-- The nodes of a document cannot be joined to one tree. -/
  | documentNodes
  /-- A node of a document stands for no value. -/
  | documentValues
deriving Repr

namespace Failure

/-- The text of a failure, if this library words it. -/
def message? : Failure → Option String
  | noPositives => some "Cannot compute a precision-recall curve without positives"
  | emptyRanking n =>
    some ("Ranking yielded no identifiers while " ++ toString n
      ++ " positives exist; precision at full recall is undefined")
  | positiveClassUnset => some "evaluation.positive_class_name must be set"
  | ascendingNotScored columns =>
    some ("ascending_columns not listed in score_columns: " ++ (Datum.list columns).shown)
  | dataFileMissing path => some ("Data file not found at " ++ path)
  | columnsMissing path columns =>
    some ("Missing columns in " ++ path ++ ": " ++ (Datum.list columns).shown)
  | identifiersRepeated column count =>
    some ("Identifier column '" ++ column ++ "' has " ++ toString count ++ " duplicate values")
  | pointOutOfRange index count =>
    some ("Point index " ++ index.shown ++ " out of range for " ++ toString count ++ " points")
  | unknownDistance tag => some ("Unknown distance function: " ++ tag)
  | badPattern pattern fault => some (fault.text pattern)
  | trackingRefused reason => some reason
  | _ => none

/-- A failure as a log line shows it: the text of a failed look-up stands in quotes. -/
def logged (f : Failure) : String :=
  match f with
  | columnsMissing .. => Text.quoted (f.message?.getD "")
  | _ => f.message?.getD ""

end Failure

end RankingEval
