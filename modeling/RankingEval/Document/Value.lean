/-
# Values of documents

The value that the tree of a document stands for. Under the key for merging, a mapping takes in the
entries of other mappings, which its own entries override.
-/

import RankingEval.Config.Section
import RankingEval.Document.Node
import RankingEval.Files.Tree

namespace RankingEval.Document

open RankingEval.Number

/-- The text in lower case, as far as ASCII goes. -/
def lowerAscii (s : String) : String := s.map Char.toLower

/-- The truth value that a word stands for. -/
def truthOf (s : String) : Except Failure Datum :=
  let word := lowerAscii s
  if ["yes", "true", "on"].contains word then .ok (.bool true)
  else if ["no", "false", "off"].contains word then .ok (.bool false)
  else .error .entryMissing

/-- A text without underscores, taken apart into its sign and the rest. -/
def signOf (s : String) : Except Failure (Bool × List Char) :=
  match s.toList.filter (· != '_') with
  | [] => .error .notAnIndex
  | '-' :: rest => .ok (true, rest)
  | '+' :: rest => .ok (false, rest)
  | cs => .ok (false, cs)

/-- The number that digits of a base stand for. -/
def inBase (base : Nat) (digits : List Char) : Except Failure Int :=
  let value (c : Char) : Nat := if c.isDigit then c.toNat - 48 else c.toLower.toNat - 87
  if !digits.isEmpty && digits.all fun c => isHexadecimal c && value c < base then
    .ok (digits.foldl (fun n c => base * n + value c) 0 : Nat)
  else .error .unreadable

/-- The whole number that a text stands for. -/
def wholeOf (s : String) : Except Failure Datum := do
  let (negative, cs) ← signOf s
  let magnitude ← match cs with
    | [] => throw .notAnIndex
    | ['0'] => pure 0
    | '0' :: 'b' :: rest => inBase 2 rest
    | '0' :: 'x' :: rest => inBase 16 rest
    | '0' :: rest => inBase 8 rest
    | _ =>
      let digits ← (Plain.splitAtColons cs).mapM fun part => (Datum.text (String.ofList part)).size
      pure (digits.foldl (fun n d => 60 * n + d) 0)
  return .int (if negative then -magnitude else magnitude)

/-- The number whose digits of base sixty are given, the last one first. -/
def ofSixtieths (digits : List Float) : Float :=
  (digits.foldl (fun (sum, unit) d => (sum + d * unit, unit * 60.0)) ((0.0 : Float), (1.0 : Float))).1

/-- The number that a text stands for. -/
def realOf (s : String) : Except Failure Datum := do
  let (negative, cs) ← signOf (lowerAscii s)
  if cs == ['.', 'n', 'a', 'n'] then return .float notANumber
  let magnitude ←
    if cs == ['.', 'i', 'n', 'f'] then pure infinity
    else
      match Plain.splitAtColons cs with
      | [_] => Datum.ofNumeral (String.ofList cs)
      | parts => do
        let digits ← parts.mapM fun part => Datum.ofNumeral (String.ofList part)
        pure (ofSixtieths digits.reverse)
  return .float (if negative then -magnitude else magnitude)

/-- The number of days of a month. -/
def daysIn (year month : Nat) : Nat :=
  if month == 2 then
    if year % 4 == 0 && (year % 100 != 0 || year % 400 == 0) then 29 else 28
  else if [4, 6, 9, 11].contains month then 30 else 31

/-- A date, which is kept as its text. -/
def dateOf (s : String) : Except Failure Datum :=
  let number (cs : List Char) : Nat := cs.foldl (fun n c => 10 * n + (c.toNat - 48)) 0
  match Plain.dateParts? s.toList with
  | some (year, month, day) =>
    if 0 < number year && 0 < number month && number month ≤ 12 && 0 < number day
        && number day ≤ daysIn (number year) (number month) then .ok (.text s)
    else .error .unreadable
  | none => .error .unsupported

/-- The value of a text under a tag. -/
def scalarValue (tag : Tag) (s : String) : Except Failure Datum :=
  match tag with
  | .null => .ok .missing
  | .truth => truthOf s
  | .whole => wholeOf s
  | .real => realOf s
  | .date => dateOf s
  | .text => .ok (.text s)
  | _ => .error .documentValues

/-- A key of a mapping, which has to be a single value. -/
def keyOf (d : Datum) : Except Failure Datum := if d.key?.isSome then .ok d else .error .documentValues

/-- The mapping of some entries in order; a key that comes again keeps its place and takes the later
value. -/
def mapOf (entries : List (Datum × Datum)) : Datum :=
  .map (entries.foldl (fun kept (k, v) => Datum.put kept k v) [])

/-- The node is a key for merging. -/
def Node.isMerge : Node → Bool
  | .scalar tag _ | .sequence tag _ | .mapping tag _ => tag == .merge

/-- The tag of a key: the sign for a default value is a text where it is a key. -/
def keyTag (tag : Tag) : Tag := if tag == .default then .text else tag

mutual

/-- The value of a node. -/
def Node.value : Node → Except Failure Datum
  | .scalar tag s => scalarValue tag s
  | .sequence .sequence items => do return .list (← Node.values items)
  | .sequence .pairs items => do return .list (← Node.pairValues items)
  | .mapping .mapping entries => do
    let (merged, own) ← Node.entryValues entries
    return mapOf (merged ++ own)
  | _ => throw .documentValues

/-- The values of several nodes. -/
def Node.values : List Node → Except Failure (List Datum)
  | [] => return []
  | item :: rest => do
    let first ← item.value
    return first :: (← Node.values rest)

/-- The values of mappings with one entry each, as pairs. -/
def Node.pairValues : List Node → Except Failure (List Datum)
  | [] => return []
  | .mapping _ [(k, v)] :: rest => do
    let key ← k.value
    let value ← v.value
    return .list [key, value] :: (← Node.pairValues rest)
  | _ :: _ => throw .documentValues

/-- The entries of a mapping: those that are merged into it, and its own. -/
def Node.entryValues : List (Node × Node) → Except Failure (List (Datum × Datum) × List (Datum × Datum))
  | [] => return ([], [])
  | (k, v) :: rest => do
    if k.isMerge then
      let found ← v.mergedEntries
      let (merged, own) ← Node.entryValues rest
      return (found ++ merged, own)
    else
      let key ← match k with
        | .scalar tag s => scalarValue (keyTag tag) s
        | _ => throw .documentValues
      let value ← v.value
      let (merged, own) ← Node.entryValues rest
      return (merged, (← keyOf key, value) :: own)

/-- The entries that a node gives when it is merged: those of a mapping, or of several mappings of which
an earlier one overrides a later one. -/
def Node.mergedEntries : Node → Except Failure (List (Datum × Datum))
  | .mapping _ entries => do
    let (merged, own) ← Node.entryValues entries
    return merged ++ own
  | .sequence _ items => Node.mergedItems items
  | .scalar .. => throw .documentValues

/-- The entries of several mappings that are merged, those of the last one first. -/
def Node.mergedItems : List Node → Except Failure (List (Datum × Datum))
  | [] => return []
  | .mapping _ entries :: rest => do
    let (merged, own) ← Node.entryValues entries
    return (← Node.mergedItems rest) ++ merged ++ own
  | _ :: _ => throw .documentValues

end

/-- The character may stand in a document. -/
def isAllowed (c : Char) : Bool :=
  let n := c.toNat
  n == 9 || n == 10 || n == 13 || (32 ≤ n && n ≤ 126) || n == 0x85 || (0xA0 ≤ n && n ≤ 0xFFFD)
    || 0x10000 ≤ n

/-- Every line end as a line feed. -/
def plainLines : List Char → List Char
  | '\r' :: '\n' :: rest => '\n' :: plainLines rest
  | '\r' :: rest => '\n' :: plainLines rest
  | c :: rest => c :: plainLines rest
  | [] => []

/-- The value that the only document of a text stands for. -/
def valueOf (s : String) : Except Failure Datum := do
  let cs := plainLines s.toList
  if !cs.all isAllowed then throw .documentCharacters
  match ← Node.ofText? (String.ofList cs) with
  | some node => node.value
  | none => return .missing

/-- The configuration in a file; a document that is not set is one without settings. -/
def load (files : Files.Tree) (path : Path) : Except Failure Datum := do
  match ← files.find path with
  | .directory => throw .isDirectory
  | .table _ => throw .unreadable
  | .text s =>
    let value ← valueOf s
    return if value.isSet then value else .map []

end RankingEval.Document
