/-
# Texts in documents

The readers of single tokens: texts in quotes, plain texts, indented texts, names and tags. In a text of
several lines a single line end becomes a space, and blank lines become line ends.
-/

import RankingEval.Document.Token

namespace RankingEval.Document.Lexing

/-- Line ends and blanks between the lines of a text in quotes: the line ends that count. -/
def quotedBreaks : Nat → Lexing (List Char)
  | 0 => refuse
  | n + 1 => do
    if ← atSeparator then refuse
    let _ ← takeWhile fun c => c == ' ' || c == '\t'
    if isBreak (← peek) then
      let found ← takeBreak
      return found ++ (← quotedBreaks n)
    else return []

/-- Line ends as they count in a text that is folded: the first becomes a space unless others follow. -/
def fold (first others : List Char) : List Char :=
  if first != ['\n'] then first ++ others else if others.isEmpty then [' '] else others

/-- Blanks inside quotes, with the line ends among them. -/
def quotedSpaces : Lexing (List Char) := do
  let blanks ← takeWhile fun c => c == ' ' || c == '\t'
  let c ← peek
  if c == endChar then refuse
  else if isBreak c then
    let first ← takeBreak
    return fold first (← quotedBreaks (← bound))
  else return blanks

/-- The characters that a backslash and one more character stand for. -/
def escapes : List (Char × Nat) := [
  ('0', 0), ('a', 7), ('b', 8), ('t', 9), ('\t', 9), ('n', 10), ('v', 11), ('f', 12), ('r', 13),
  ('e', 27), (' ', 32), ('"', 34), ('\\', 92), ('/', 47), ('N', 0x85), ('_', 0xA0), ('L', 0x2028),
  ('P', 0x2029)]

/-- The number of digits behind a backslash and a letter that announces a code. -/
def codeLengths : List (Char × Nat) := [('x', 2), ('u', 4), ('U', 8)]

/-- What stands behind a backslash. -/
def escaped : Lexing (List Char) := do
  let c ← peek
  match escapes.lookup c, codeLengths.lookup c with
  | some code, _ =>
    forward 1
    return [Char.ofNat code]
  | none, some length =>
    forward 1
    let digits := (← get).rest.take length
    if digits.length < length || !digits.all isHexadecimal then refuse
    forward length
    let code := hexadecimalValue digits
    if 0x10FFFF < code then throw .unreadable
    return [Char.ofNat code]
  | none, none =>
    if isBreak c then
      let _ ← takeBreak
      quotedBreaks (← bound)
    else refuse

/-- What stands inside quotes up to the next blank or the closing quote. -/
def quotedWord (double : Bool) : Nat → Lexing (List Char)
  | 0 => refuse
  | n + 1 => do
    let plain ← takeWhile fun c => !(isOneOf "'\"\\" c || endsPlain c)
    let c ← peek
    if !double && c == '\'' && (← peekAt 1) == '\'' then
      forward 2
      return plain ++ '\'' :: (← quotedWord double n)
    else if (double && c == '\'') || (!double && (c == '"' || c == '\\')) then
      forward 1
      return plain ++ c :: (← quotedWord double n)
    else if double && c == '\\' then
      forward 1
      let found ← escaped
      return plain ++ found ++ (← quotedWord double n)
    else return plain

/-- A text in quotes from behind the opening quote, with the closing quote. -/
def quotedText (double : Bool) : Nat → Lexing (List Char)
  | 0 => refuse
  | n + 1 => do
    let word ← quotedWord double (← bound)
    if (← peek) == (if double then '"' else '\'') then
      forward 1
      return word
    else
      let spaces ← quotedSpaces
      return word ++ spaces ++ (← quotedText double n)

/-- A text in quotes. -/
def quoted (double : Bool) : Lexing Token := do
  forward 1
  return .scalar (String.ofList (← quotedText double (← bound))) false

/-- Line ends behind a line of a plain text; none if a document starts or ends there. -/
def plainBreaks : Nat → Lexing (Option (List Char))
  | 0 => return none
  | n + 1 => do
    if ← atSeparator then return none
    skipSpaces
    if isBreak (← peek) then
      let found ← takeBreak
      return (← plainBreaks n).map (found ++ ·)
    else return some []

/-- Spaces in a plain text, with the line ends among them; nothing if the text ends there. -/
def plainSpaces : Lexing (List Char) := do
  let spaces ← takeWhile (· == ' ')
  if isBreak (← peek) then
    let first ← takeBreak
    modify fun l => { l with keyAllowed := true }
    match ← plainBreaks (← bound) with
    | some others => return fold first others
    | none => return []
  else return spaces

/-- The characters of a plain text up to the next blank, or to what ends it. -/
def plainWord (inFlow : Bool) : List Char → List Char
  | [] => []
  | c :: rest =>
    let next := rest.head?.getD endChar
    if endsPlain c
        || (c == ':' && (endsPlain next || (inFlow && isOneOf ",[]\x7b\x7d" next)))
        || (inFlow && isOneOf ",?[]\x7b\x7d" c) then []
    else c :: plainWord inFlow rest

/-- A plain text, behind the given spaces. -/
def plainText (indent : Int) : Nat → List Char → Lexing (List Char)
  | 0, _ => return []
  | n + 1, spaces => do
    let l ← get
    let word := plainWord (l.flow != 0) l.rest
    if (← peek) == '#' || word.isEmpty then return []
    modify fun l => { l with keyAllowed := false }
    forward word.length
    let next ← plainSpaces
    let l ← get
    if next.isEmpty || l.rest.head? == some '#' || (l.flow == 0 && (l.column : Int) < indent) then
      return spaces ++ word
    else return spaces ++ word ++ (← plainText indent n next)

/-- A plain text. -/
def plain : Lexing Token := do
  return .scalar (String.ofList (← plainText ((← get).indent + 1) (← bound) [])) true

/-- What becomes of the line ends at the end of an indented text. -/
inductive Chomping where
  /-- All go. -/
  | strip
  /-- One stays. -/
  | clip
  /-- All stay. -/
  | keep
deriving DecidableEq, Repr

/-- The sign that says what becomes of the last line ends. -/
def chompingSign : Lexing (Option Chomping) := do
  let c ← peek
  if c == '+' then
    forward 1
    return some .keep
  else if c == '-' then
    forward 1
    return some .strip
  else return none

/-- The digit that gives the indentation. -/
def indentDigit : Lexing (Option Nat) := do
  let c ← peek
  if c.isDigit then
    if c == '0' then refuse
    forward 1
    return some (c.toNat - 48)
  else return none

/-- The head of an indented text: a sign and a digit in either order, each of which may be absent. -/
def blockHead : Lexing (Chomping × Option Nat) := do
  let first ← chompingSign
  let digit ← indentDigit
  let sign ← if first.isSome || digit.isNone then pure first else chompingSign
  if !endsWord (← peek) then refuse
  return (sign.getD .clip, digit)

/-- Blank lines before the first line of an indented text: their line ends, and the deepest indentation
seen. -/
def blockIndentation : Nat → Nat → Lexing (List Char × Nat)
  | 0, deepest => return ([], deepest)
  | n + 1, deepest => do
    let c ← peek
    if c == ' ' then
      forward 1
      blockIndentation n (max deepest (← get).column)
    else if isBreak c then
      let found ← takeBreak
      let (others, deepest) ← blockIndentation n deepest
      return (found ++ others, deepest)
    else return ([], deepest)

/-- Skips spaces up to an indentation. -/
def skipIndent (indent : Nat) : Lexing Unit := do
  let l ← get
  forward ((l.rest.takeWhile (· == ' ')).take (indent - l.column)).length

/-- Blank lines in an indented text. -/
def blockBreaks (indent : Nat) : Nat → Lexing (List Char)
  | 0 => return []
  | n + 1 => do
    skipIndent indent
    if isBreak (← peek) then
      let found ← takeBreak
      return found ++ (← blockBreaks indent n)
    else return []

/-- The lines of an indented text, and the line ends behind the last: the end of that line, and those
of the blank lines. -/
def blockLines (folded : Bool) (indent : Nat) :
    Nat → (breaks last : List Char) → Lexing (List Char × List Char × List Char)
  | 0, breaks, last => return ([], last, breaks)
  | n + 1, breaks, last => do
    let inside : Lexing Bool := do
      let l ← get
      return l.column == indent && !l.rest.isEmpty
    if !(← inside) then return ([], last, breaks)
    let isMore (c : Char) : Bool := c == ' ' || c == '\t'
    let startsPlain := !isMore (← peek)
    let line ← takeLine
    let ending ← takeBreak
    let after ← blockBreaks indent (← bound)
    if ← inside then
      let joint :=
        if folded && ending == ['\n'] && startsPlain && !isMore (← peek) then
          if after.isEmpty then [' '] else []
        else ending
      let (others, last, tail) ← blockLines folded indent n after ending
      return (breaks ++ line ++ joint ++ others, last, tail)
    else return (breaks ++ line, ending, after)

/-- An indented text. -/
def block (folded : Bool) : Lexing Token := do
  forward 1
  let (chomping, digit) ← blockHead
  skipRestOfLine
  let least := (max ((← get).indent + 1) 1).toNat
  let (breaks, indent) ← match digit with
    | some d => do
      let indent := least + d - 1
      pure (← blockBreaks indent (← bound), indent)
    | none => do
      let (breaks, deepest) ← blockIndentation (← bound) 0
      pure (breaks, max least deepest)
  let (lines, last, tail) ← blockLines folded indent (← bound) breaks []
  let ending := match chomping with
    | .strip => []
    | .clip => last
    | .keep => last ++ tail
  return .scalar (String.ofList (lines ++ ending)) false

/-- A name behind an ampersand or an asterisk. -/
def name : Lexing String := do
  forward 1
  let found ← takeWhile isNameChar
  if found.isEmpty then refuse
  let c ← peek
  if !(endsPlain c || isOneOf "?:,]\x7d%@\x60" c) then refuse
  return String.ofList found

/-- Bytes written as two digits behind a percent sign each. -/
def percentBytes : Nat → Lexing (List UInt8)
  | 0 => return []
  | n + 1 => do
    if (← peek) == '%' then
      forward 1
      let digits := (← get).rest.take 2
      if digits.length < 2 || !digits.all isHexadecimal then refuse
      forward 2
      return UInt8.ofNat (hexadecimalValue digits) :: (← percentBytes n)
    else return []

/-- The characters of a tag or of the beginning of tags. -/
def tagText : Nat → Lexing (List Char)
  | 0 => return []
  | n + 1 => do
    let found ← takeWhile fun c => c.isAlphanum || isOneOf "-;/?:@&=+$,_.!~*'()[]" c
    if (← peek) == '%' then
      let bytes ← percentBytes (← bound)
      match String.fromUTF8? ⟨bytes.toArray⟩ with
      | some s => return found ++ s.toList ++ (← tagText n)
      | none => refuse
    else return found

/-- The characters of a tag, of which there has to be one. -/
def someTagText : Lexing String := do
  let found ← tagText (← bound)
  if found.isEmpty then refuse
  return String.ofList found

/-- The handle of a tag: an exclamation mark, or a name between two of them. -/
def tagHandle : Lexing String := do
  if (← peek) != '!' then refuse
  if (← peekAt 1) == ' ' then
    forward 1
    return "!"
  else
    let word := ((← get).rest.drop 1).takeWhile isNameChar
    if (← peekAt (word.length + 1)) != '!' then refuse
    forward (word.length + 2)
    return "!" ++ String.ofList word ++ "!"

/-- A tag. -/
def tag : Lexing Token := do
  let c ← peekAt 1
  let found ←
    if c == '<' then do
      forward 2
      let suffix ← someTagText
      if (← peek) != '>' then refuse
      forward 1
      pure (Token.tag none suffix)
    else if endsPlain c then do
      forward 1
      pure (Token.tag none "!")
    else do
      let word := ((← get).rest.drop 1).takeWhile fun c => !endsWord c
      let handle ←
        if word.contains '!' then tagHandle
        else do
          forward 1
          pure "!"
      pure (Token.tag (some handle) (← someTagText))
  if !endsWord (← peek) then refuse
  return found

/-- A number in a directive. -/
def directiveNumber : Lexing Nat := do
  let digits ← takeWhile Char.isDigit
  if digits.isEmpty then refuse
  return digits.foldl (fun n d => 10 * n + (d.toNat - 48)) 0

/-- A directive. -/
def directive : Lexing Token := do
  forward 1
  let word ← takeWhile isNameChar
  if word.isEmpty || !endsWord (← peek) then refuse
  let found ←
    match String.ofList word with
    | "YAML" => do
      skipSpaces
      let major ← directiveNumber
      if (← peek) != '.' then refuse
      forward 1
      let minor ← directiveNumber
      if !endsWord (← peek) then refuse
      pure (Token.version major minor)
    | "TAG" => do
      skipSpaces
      let handle ← tagHandle
      if (← peek) != ' ' then refuse
      skipSpaces
      let full ← someTagText
      if !endsWord (← peek) then refuse
      pure (Token.handle handle full)
    | _ => do
      let _ ← takeLine
      pure Token.otherDirective
  skipRestOfLine
  return found

end RankingEval.Document.Lexing
