/-
# Delimited text

Text with one record a line and commas between fields. A field in quotes may hold commas, line ends and,
written twice, quotes. Lines that hold nothing but blanks are no records. Every line end that is in use
ends a record.
-/

import RankingEval.Failure

namespace RankingEval.Delimited

/-- What the reader is in the middle of. -/
inductive Place where
  /-- Before the first character of a line. -/
  | lineStart
  /-- In the blanks at the start of a line. -/
  | blanks
  /-- Before the first character of a field. -/
  | fieldStart
  /-- In a field, or in the part of it behind the quotes. -/
  | field
  /-- Between quotes. -/
  | quoted
  /-- Behind a quote that may end the quoted part. -/
  | quote
deriving DecidableEq, Repr

/-- The reader: where it is, and what it has read, each with the latest first. -/
structure Reader where
  /-- What it is in the middle of. -/
  place : Place
  /-- The characters of the current field. -/
  chars : List Char
  /-- The fields of the current record. -/
  fields : List String
  /-- The records. -/
  records : List (List String)

namespace Reader

/-- A reader that has read nothing. -/
def start : Reader := ⟨.lineStart, [], [], []⟩

/-- Ends the current field. A NUL and what stands behind it are no part of a field. -/
def endField (r : Reader) : Reader :=
  let chars := r.chars.reverse.takeWhile (· != '\x00')
  { r with place := .fieldStart, chars := [], fields := String.ofList chars :: r.fields }

/-- Ends the current record with the current field. -/
def endRecord (r : Reader) : Reader :=
  let r := r.endField
  { r with place := .lineStart, fields := [], records := r.fields.reverse :: r.records }

/-- Takes a character into the current field. -/
def push (r : Reader) (place : Place) (c : Char) : Reader := { r with place, chars := c :: r.chars }

/-- The character ends a line. -/
def isLineEnd (c : Char) : Bool := c == '\n' || c == '\r'

/-- The character is a blank. -/
def isBlank (c : Char) : Bool := c == ' ' || c == '\t'

/-- Takes a character that stands in a field without quotes, or at its start. -/
def takePlain (r : Reader) (c : Char) : Reader :=
  if isLineEnd c then r.endRecord
  else if c == ',' then r.endField
  else if c == '"' && r.place == .fieldStart then { r with place := .quoted }
  else r.push .field c

/-- Takes a character. -/
def step (r : Reader) (c : Char) : Reader :=
  match r.place with
  | .lineStart =>
    if isLineEnd c then r
    else if isBlank c then r.push .blanks c
    else { r with place := .fieldStart }.takePlain c
  | .blanks =>
    if isLineEnd c then { r with place := .lineStart, chars := [] }
    else if isBlank c then r.push .blanks c
    else { r with place := .field }.takePlain c
  | .fieldStart | .field => r.takePlain c
  | .quoted => if c == '"' then { r with place := .quote } else r.push .quoted c
  | .quote => if c == '"' then r.push .quoted c else { r with place := .field }.takePlain c

/-- The records once the text has ended; it may not end between quotes. -/
def finish (r : Reader) : Except Failure (List (List String)) :=
  match r.place with
  | .lineStart | .blanks => .ok r.records.reverse
  | .quoted => .error .tableMalformed
  | .fieldStart | .field | .quote => .ok r.endRecord.records.reverse

end Reader

/-- The records of a text. -/
def records (s : String) : Except Failure (List (List String)) :=
  let cs := s.toList
  let cs := if cs.head? == some (Char.ofNat 0xFEFF) then cs.drop 1 else cs
  (cs.foldl Reader.step Reader.start).finish

/-- Fills a record up with empty fields. -/
def fill (width : Nat) (fields : List String) : List String :=
  fields ++ List.replicate (width - fields.length) ""

/-- The header of some records and the other records. Every record is filled up to the width of the
header or, if it is wider, of the first record; a wider one further down is out of place. -/
def headed (records : List (List String)) : Except Failure (List String × List (List String)) :=
  match records with
  | [] => .error .tableEmpty
  | header :: rows =>
    let width := max header.length ((rows.head?.map List.length).getD 0)
    if rows.all fun row => row.length ≤ width then .ok (header, rows.map (fill width))
    else .error .tableMalformed

end RankingEval.Delimited
