/-
# The lexer of documents

Tokens are read when they are asked for and no sooner, so that a fault further down is not noticed before
one that comes first. Only a key has to be waited for: until its colon is seen or ruled out, the token
that may start it is not given out.
-/

import RankingEval.Document.Scalar

namespace RankingEval.Document.Lexing

/-- Appends a token to those that were read. -/
def emit (t : Token) : Lexing Unit := modify fun l => { l with queue := l.queue ++ [t] }

/-- Inserts tokens before the token of a number. -/
def emitAt (number : Nat) (ts : List Token) : Lexing Unit :=
  modify fun l =>
    let i := number - l.taken
    { l with queue := l.queue.take i ++ ts ++ l.queue.drop i }

/-- Lets keys start here, or not. -/
def allowKey (allowed : Bool) : Lexing Unit := modify fun l => { l with keyAllowed := allowed }

/-- The longest distance of a key from its colon. -/
def keyLimit : Nat := 1024

/-- Gives up the keys that cannot be followed by a colon any more. -/
def dropStaleKeys : Lexing Unit := do
  let l ← get
  let isStale (k : PendingKey) : Bool := k.line != l.line || keyLimit < l.index - k.index
  if l.keys.any fun k => isStale k.2 && k.2.isRequired then refuse
  set { l with keys := l.keys.filter fun k => !isStale k.2 }

/-- Gives up the key that waits at this depth. -/
def dropKey : Lexing Unit := do
  let l ← get
  match l.keys.lookup l.flow with
  | some k =>
    if k.isRequired then refuse
    set { l with keys := l.keys.filter fun k => k.1 != l.flow }
  | none => return ()

/-- Notes that a key may start here. -/
def noteKey : Lexing Unit := do
  let l ← get
  if l.keyAllowed then
    dropKey
    let k : PendingKey := ⟨l.taken + l.queue.length, l.flow == 0 && l.indent == l.column,
      l.index, l.line, l.column⟩
    modify fun l => { l with keys := l.keys ++ [(l.flow, k)] }

/-- Ends the blocks that are indented deeper than a column. -/
def unwind (column : Int) : Lexing Unit := do
  let l ← get
  if l.flow == 0 then loop (l.indents.length + 1)
where
  /-- Ends one block after the other. -/
  loop : Nat → Lexing Unit
    | 0 => return ()
    | n + 1 => do
      let l ← get
      if column < l.indent then
        set { l with indent := l.indents.head?.getD (-1), indents := l.indents.drop 1,
                     queue := l.queue ++ [Token.blockEnd] }
        loop n

/-- Makes a column the indentation if it is deeper, and tells whether it is. -/
def indentTo (column : Nat) : Lexing Bool := do
  let l ← get
  if l.indent < column then
    set { l with indent := (column : Int), indents := l.indent :: l.indents }
    return true
  else return false

/-- Starts a block at this column if it is deeper than the one around it. -/
def startBlock (t : Token) : Lexing Unit := do
  if ← indentTo (← get).column then emit t

/-- Takes a token of `n` characters. -/
def emitSign (t : Token) (n : Nat) : Lexing Unit := do
  forward n
  emit t

/-- Reads the end of the text. -/
def fetchEnd : Lexing Unit := do
  unwind (-1)
  dropKey
  modify fun l => { l with keyAllowed := false, keys := [], isFinished := true }
  emit .streamEnd

/-- Prepares for a token that stands at the start of a line and outside of all blocks. -/
def leaveBlocks : Lexing Unit := do
  unwind (-1)
  dropKey
  allowKey false

/-- Reads a directive. -/
def fetchDirective : Lexing Unit := do
  leaveBlocks
  emit (← directive)

/-- Reads the start or the end of a document. -/
def fetchSeparator (t : Token) : Lexing Unit := do
  leaveBlocks
  emitSign t 3

/-- Reads an opening bracket or brace. -/
def fetchOpening (t : Token) : Lexing Unit := do
  noteKey
  modify fun l => { l with flow := l.flow + 1, keyAllowed := true }
  emitSign t 1

/-- Reads a closing bracket or brace. -/
def fetchClosing (t : Token) : Lexing Unit := do
  dropKey
  modify fun l => { l with flow := l.flow - 1, keyAllowed := false }
  emitSign t 1

/-- Reads a comma between entries. -/
def fetchComma : Lexing Unit := do
  allowKey true
  dropKey
  emitSign .flowEntry 1

/-- Reads the hyphen of an entry. -/
def fetchHyphen : Lexing Unit := do
  let l ← get
  if l.flow == 0 then
    if !l.keyAllowed then refuse
    startBlock .blockSequenceStart
  allowKey true
  dropKey
  emitSign .blockEntry 1

/-- Reads the question mark of a key. -/
def fetchQuestion : Lexing Unit := do
  let l ← get
  if l.flow == 0 then
    if !l.keyAllowed then refuse
    startBlock .blockMappingStart
  allowKey (l.flow == 0)
  dropKey
  emitSign .key 1

/-- Reads the colon of a value. If a key waits for it, the key is announced in front of its tokens. -/
def fetchColon : Lexing Unit := do
  let l ← get
  match l.keys.lookup l.flow with
  | some k =>
    set { l with keys := l.keys.filter fun k => k.1 != l.flow }
    let starts ← if l.flow == 0 then indentTo k.column else pure false
    emitAt k.token (if starts then [.blockMappingStart, .key] else [.key])
    allowKey false
  | none =>
    if l.flow == 0 then
      if !l.keyAllowed then refuse
      startBlock .blockMappingStart
    allowKey (l.flow == 0)
    dropKey
  emitSign .value 1

/-- Reads a token that may start a key. -/
def fetchNode (read : Lexing Token) : Lexing Unit := do
  noteKey
  allowKey false
  emit (← read)

/-- Reads an indented text. -/
def fetchBlock (folded : Bool) : Lexing Unit := do
  allowKey true
  dropKey
  emit (← block folded)

/-- A plain text may start with the first character if the second one follows. -/
def startsPlain (inFlow : Bool) (c next : Char) : Bool :=
  !(endsPlain c || isOneOf "-?:,[]\x7b\x7d#&*!|>'\"%@\x60" c)
    || (!endsPlain next && (c == '-' || (!inFlow && (c == '?' || c == ':'))))

/-- Reads the next token, and the ends of the blocks that end before it. -/
def fetch : Lexing Unit := do
  skipToToken
  dropStaleKeys
  unwind (← get).column
  let l ← get
  let c ← peek
  let next ← peekAt 1
  let inFlow := l.flow != 0
  if c == endChar then fetchEnd
  else if c == '%' && l.column = 0 then fetchDirective
  else if l.column = 0 && (← atMark ["---"]) then fetchSeparator .documentStart
  else if l.column = 0 && (← atMark ["..."]) then fetchSeparator .documentEnd
  else if c == '[' then fetchOpening .flowSequenceStart
  else if c == '\x7b' then fetchOpening .flowMappingStart
  else if c == ']' then fetchClosing .flowSequenceEnd
  else if c == '\x7d' then fetchClosing .flowMappingEnd
  else if c == ',' then fetchComma
  else if c == '-' && endsPlain next then fetchHyphen
  else if c == '?' && (inFlow || endsPlain next) then fetchQuestion
  else if c == ':' && (inFlow || endsPlain next) then fetchColon
  else if c == '*' then fetchNode (Token.alias <$> name)
  else if c == '&' then fetchNode (Token.anchor <$> name)
  else if c == '!' then fetchNode tag
  else if c == '|' && !inFlow then fetchBlock false
  else if c == '>' && !inFlow then fetchBlock true
  else if c == '\'' then fetchNode (quoted false)
  else if c == '"' then fetchNode (quoted true)
  else if startsPlain inFlow c next then fetchNode plain
  else refuse

/-- Another token has to be read before the first of those that were read can be given out. -/
def needsMore : Lexing Bool := do
  let l ← get
  if l.isFinished then return false
  if l.queue.isEmpty then return true
  dropStaleKeys
  let l ← get
  return l.keys.any fun k => k.2.token == l.taken

/-- Reads tokens until the first one can be given out. -/
def prepare : Nat → Lexing Unit
  | 0 => return ()
  | n + 1 => do
    if ← needsMore then
      fetch
      prepare n

/-- The next token, which is not taken yet. -/
def peekToken : Lexing Token := do
  prepare (← bound)
  return (← get).queue.head?.getD .streamEnd

/-- Takes the next token. -/
def takeToken : Lexing Token := do
  let t ← peekToken
  modify fun l => { l with queue := l.queue.drop 1, taken := l.taken + 1 }
  return t

/-- Takes the next token if it is the given one. -/
def acceptToken (t : Token) : Lexing Bool := do
  if (← peekToken) == t then
    let _ ← takeToken
    return true
  else return false

end RankingEval.Document.Lexing
