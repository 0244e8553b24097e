/-
# Tokens of documents

A document is read as a row of tokens. Where a line is indented deeper than the one before, a token opens
a block, and where the indentation ends, another one closes it. The lexer keeps what it knows about
indentation, and the keys that it has seen without having seen yet whether a colon follows them.
-/

import RankingEval.Failure

namespace RankingEval.Document

/-- A token of a document. -/
inductive Token where
  /-- The version of the language that the document is written in. -/
  | version (major minor : Nat)
  /-- A short form for the beginning of tags. -/
  | handle (name full : String)
  /-- A directive that means nothing here. -/
  | otherDirective
  /-- The document starts. -/
  | documentStart
  /-- The document ends. -/
  | documentEnd
  /-- The text ends. -/
  | streamEnd
  /-- A sequence in brackets starts. -/
  | flowSequenceStart
  /-- A sequence in brackets ends. -/
  | flowSequenceEnd
  /-- A mapping in braces starts. -/
  | flowMappingStart
  /-- A mapping in braces ends. -/
  | flowMappingEnd
  /-- A comma between entries. -/
  | flowEntry
  /-- An indented sequence starts. -/
  | blockSequenceStart
  /-- An indented mapping starts. -/
  | blockMappingStart
  /-- An indented block ends. -/
  | blockEnd
  /-- An entry of an indented sequence. -/
  | blockEntry
  /-- A key. -/
  | key
  /-- The value of a key. -/
  | value
  /-- A reference to a node that was named before. -/
  | alias (name : String)
  /-- The name of a node. -/
  | anchor (name : String)
  /-- The tag of a node; the handle stands for the beginning of it. -/
  | tag (handle : Option String) (suffix : String)
  /-- A text, in quotes or another style, or plain. -/
  | scalar (text : String) (plain : Bool)
deriving DecidableEq, Repr

/-- A key that waits for its colon. -/
structure PendingKey where
  /-- The number of its first token. -/
  token : Nat
  /-- Nothing but a key can stand there. -/
  isRequired : Bool
  /-- The number of characters before it. -/
  index : Nat
  /-- The line that it stands in. -/
  line : Nat
  /-- The number of characters before it in the line. -/
  column : Nat

/-- The lexer at a point of the text. -/
structure Lexer where
  /-- The characters to come. -/
  rest : List Char
  /-- The number of characters read. -/
  index : Nat := 0
  /-- The number of lines read. -/
  line : Nat := 0
  /-- The number of characters read in this line. -/
  column : Nat := 0
  /-- The number of brackets and braces that are open. -/
  flow : Int := 0
  /-- The tokens that were read and not yet taken. -/
  queue : List Token := []
  /-- The number of tokens that were taken. -/
  taken : Nat := 0
  /-- The indentation of the block. -/
  indent : Int := -1
  /-- The indentation of the blocks around it. -/
  indents : List Int := []
  /-- A key may start here. -/
  keyAllowed : Bool := true
  /-- The keys that wait for their colons, at most one for each number of open brackets. -/
  keys : List (Int × PendingKey) := []
  /-- The end of the text was read. -/
  isFinished : Bool := false

/-- A computation of the lexer, which may fail. -/
abbrev Lexing := StateT Lexer (Except Failure)

/-- What stands for the end of the text where a character is expected. -/
def endChar : Char := '\x00'

/-- The character is one of those in a text. -/
def isOneOf (set : String) (c : Char) : Bool := set.toList.contains c

/-- The character breaks lines. -/
def isBreak (c : Char) : Bool := isOneOf "\r\n\u0085\u2028\u2029" c

/-- The line ends here. -/
def endsLine (c : Char) : Bool := c == endChar || isBreak c

/-- A space, or the line ends here. -/
def endsWord (c : Char) : Bool := c == ' ' || endsLine c

/-- A blank, or the line ends here. -/
def endsPlain (c : Char) : Bool := c == '\t' || endsWord c

/-- A letter or digit of ASCII, a hyphen or an underscore. -/
def isNameChar (c : Char) : Bool := c.isAlphanum || c == '-' || c == '_'

/-- A digit of base sixteen. -/
def isHexadecimal (c : Char) : Bool :=
  c.isDigit || ('a' ≤ c && c ≤ 'f') || ('A' ≤ c && c ≤ 'F')

/-- The value of digits of base sixteen. -/
def hexadecimalValue (cs : List Char) : Nat :=
  cs.foldl (fun n c => 16 * n + (if c.isDigit then c.toNat - 48 else c.toLower.toNat - 87)) 0

namespace Lexing

/-- Gives up: the text has no further token. -/
def refuse {α : Type} : Lexing α := throw .documentTokens

/-- The character after `n` others. -/
def peekAt (n : Nat) : Lexing Char := do return (← get).rest.getD n endChar

/-- The next character. -/
def peek : Lexing Char := peekAt 0

/-- The lexer one character on. A carriage return and a line feed break one line together. -/
def step (l : Lexer) : Lexer :=
  match l.rest with
  | [] => l
  | c :: rest =>
    let l := { l with rest, index := l.index + 1 }
    if isBreak c && !(c == '\r' && rest.head? == some '\n') then
      { l with line := l.line + 1, column := 0 }
    else if c == Char.ofNat 0xFEFF then l
    else { l with column := l.column + 1 }

/-- Moves on by `n` characters. -/
def forward (n : Nat) : Lexing Unit := modify fun l => (List.range n).foldl (fun l _ => step l) l

/-- Takes the characters in front that pass a test. -/
def takeWhile (test : Char → Bool) : Lexing (List Char) := do
  let taken := (← get).rest.takeWhile test
  forward taken.length
  return taken

/-- Takes all characters up to the end of the line. -/
def takeLine : Lexing (List Char) := takeWhile fun c => !isBreak c

/-- Skips spaces. -/
def skipSpaces : Lexing Unit := do
  let _ ← takeWhile (· == ' ')

/-- Skips a comment, if there is one. -/
def skipComment : Lexing Unit := do
  if (← peek) == '#' then
    let _ ← takeLine

/-- Takes the end of a line, if the line ends here. Most line ends count as a line feed. -/
def takeBreak : Lexing (List Char) := do
  let c ← peek
  if isOneOf "\r\n\u0085" c then
    forward (if c == '\r' && (← peekAt 1) == '\n' then 2 else 1)
    return ['\n']
  else if isBreak c then
    forward 1
    return [c]
  else return []

/-- The number of characters to come and one more, as a bound for loops. -/
def bound : Lexing Nat := do return (← get).rest.length + 1

/-- The characters in front are a mark of three characters that stands alone. -/
def atMark (marks : List String) : Lexing Bool := do
  let rest := (← get).rest
  return marks.contains (String.ofList (rest.take 3)) && endsPlain (rest.getD 3 endChar)

/-- A document starts or ends here. -/
def atSeparator : Lexing Bool := atMark ["---", "..."]

/-- Skips blank lines, comments, and what is left of a line that ends here. -/
def skipToToken : Lexing Unit := do
  if (← get).index = 0 && (← peek) == Char.ofNat 0xFEFF then forward 1
  loop (← bound)
where
  /-- Skips one line after the other. -/
  loop : Nat → Lexing Unit
    | 0 => return ()
    | n + 1 => do
      skipSpaces
      skipComment
      if (← takeBreak).isEmpty then return ()
      if (← get).flow == 0 then modify fun l => { l with keyAllowed := true }
      loop n

/-- Skips what may follow a directive or the head of an indented text: a comment. -/
def skipRestOfLine : Lexing Unit := do
  skipSpaces
  skipComment
  if !endsLine (← peek) then refuse
  let _ ← takeBreak

end Lexing

end RankingEval.Document
