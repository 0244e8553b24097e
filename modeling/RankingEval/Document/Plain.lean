/-
# What plain texts stand for

A plain text of a document may stand for nothing, a truth value, a number or a date; any other stands
for itself. Numbers may be written in base two, eight and sixteen, and in base sixty with colons.
-/

import RankingEval.Document.Token

namespace RankingEval.Document

/-- What a node is to be read as. -/
inductive Tag where
  /-- No value. -/
  | null
  /-- A truth value. -/
  | truth
  /-- A whole number. -/
  | whole
  /-- A number. -/
  | real
  /-- A date. -/
  | date
  /-- A text. -/
  | text
  /-- A sequence. -/
  | sequence
  /-- A sequence of pairs. -/
  | pairs
  /-- A mapping. -/
  | mapping
  /-- A key under which other mappings are taken in. -/
  | merge
  /-- A key for the value of a mapping that stands for a single value. -/
  | default
  /-- Something that is not known here. -/
  | other (name : String)
deriving DecidableEq, Repr

namespace Tag

/-- How the names of all known tags begin. -/
def family : String := "tag:yaml.org,2002:"

/-- The known tags by the rest of their names. -/
def known : List (String × Tag) := [
  ("null", null), ("bool", truth), ("int", whole), ("float", real), ("timestamp", date), ("str", text),
  ("seq", sequence), ("omap", pairs), ("pairs", pairs), ("map", mapping), ("merge", merge),
  ("value", default)]

/-- The tag of a full name. -/
def ofName (name : String) : Tag :=
  ((known.find? fun entry => family ++ entry.1 == name).map (·.2)).getD (other name)

end Tag

namespace Plain

/-- The texts that stand for nothing. -/
def nullNames : List String := ["", "~", "null", "Null", "NULL"]

/-- The texts that stand for a truth value. -/
def truthNames : List String := [
  "yes", "Yes", "YES", "no", "No", "NO", "true", "True", "TRUE", "false", "False", "FALSE",
  "on", "On", "ON", "off", "Off", "OFF"]

/-- The text without a sign in front. -/
def unsigned : List Char → List Char
  | '+' :: rest | '-' :: rest => rest
  | cs => cs

/-- A digit or an underscore. -/
def isSpacedDigit (c : Char) : Bool := c.isDigit || c == '_'

/-- The text holds characters, and all of them pass a test. -/
def someAll (test : Char → Bool) (cs : List Char) : Bool := !cs.isEmpty && cs.all test

/-- The parts between colons. -/
def splitAtColons : List Char → List (List Char)
  | [] => [[]]
  | c :: rest =>
    if c == ':' then [] :: splitAtColons rest
    else
      match splitAtColons rest with
      | part :: parts => (c :: part) :: parts
      | [] => [[c]]

/-- A digit of base sixty in one or two digits. -/
def isSixtieth : List Char → Bool
  | [c] => c.isDigit
  | [c, d] => '0' ≤ c && c ≤ '5' && d.isDigit
  | _ => false

/-- A whole number without a sign: no zero stands in front of others. -/
def isDecimal : List Char → Bool
  | ['0'] => true
  | c :: rest => '1' ≤ c && c ≤ '9' && rest.all isSpacedDigit
  | [] => false

/-- The text stands for a whole number. -/
def isWhole (s : String) : Bool :=
  let cs := unsigned s.toList
  match cs with
  | '0' :: 'b' :: rest => someAll (fun c => c == '0' || c == '1' || c == '_') rest
  | '0' :: 'x' :: rest => someAll (fun c => isHexadecimal c || c == '_') rest
  | '0' :: rest => rest.all fun c => ('0' ≤ c && c ≤ '7') || c == '_'
  | _ =>
    match splitAtColons cs with
    | head :: digits => isDecimal head && digits.all isSixtieth
    | [] => false

/-- An exponent, which has a sign, or nothing. -/
def isExponent : List Char → Bool
  | [] => true
  | e :: sign :: digits =>
    (e == 'e' || e == 'E') && (sign == '+' || sign == '-') && someAll Char.isDigit digits
  | _ => false

/-- Digits behind a point, with an exponent if need be. -/
def isFraction (cs : List Char) : Bool := isExponent (cs.dropWhile isSpacedDigit)

/-- Digits, with underscores between them but not in front. -/
def isSpacedNumber : List Char → Bool
  | c :: rest => c.isDigit && rest.all isSpacedDigit
  | [] => false

/-- The text stands for a number with a point. -/
def isReal (s : String) : Bool :=
  let cs := unsigned s.toList
  let (front, back) := cs.span (· != '.')
  match back with
  | [] => false
  | _ :: fraction =>
    if front.isEmpty then
      ["inf", "Inf", "INF"].contains (String.ofList fraction)
        || (cs == s.toList && (["nan", "NaN", "NAN"].contains (String.ofList fraction)
          || ((fraction.head?.getD endChar).isDigit && isFraction fraction)))
    else
      match splitAtColons front with
      | [head] => isSpacedNumber head && isFraction fraction
      | head :: digits => isSpacedNumber head && digits.all isSixtieth && fraction.all isSpacedDigit
      | [] => false

/-- The year, the month and the day of a date, as they are written. -/
def dateParts? : List Char → Option (List Char × List Char × List Char)
  | [a, b, c, d, '-', e, f, '-', g, h] =>
    if [a, b, c, d, e, f, g, h].all Char.isDigit then some ([a, b, c, d], [e, f], [g, h]) else none
  | _ => none

/-- What a plain text stands for. -/
def tagOf (s : String) : Tag :=
  if nullNames.contains s then .null
  else if truthNames.contains s then .truth
  else if isReal s then .real
  else if isWhole s then .whole
  else if s == "<<" then .merge
  else if s == "=" then .default
  else if (dateParts? s.toList).isSome then .date
  else .text

end Plain

end RankingEval.Document
