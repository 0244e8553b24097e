/-
# Reading regular expressions

The reader of the pattern language. It takes one token at a time, where a backslash and the character
behind it are one token, and says at which position and why a pattern is refused. Every call of the
reader has a bound on the calls it may make, which the length of the pattern gives. The names of
characters are not kept here, so that an escape by name is refused whatever the name is.
-/

import RankingEval.Number.Literal
import RankingEval.Pattern.Basic
import RankingEval.Pattern.Fault
import RankingEval.Text.Letter
import RankingEval.Text.Quoted

namespace RankingEval.Pattern

/-- A token: a character, escaped or not. -/
structure Token where
  /-- A backslash stands before the character. -/
  isEscaped : Bool
  /-- The character. -/
  char : Char
deriving DecidableEq, Repr

namespace Token

/-- The number of characters of a token. -/
def width (t : Token) : Nat := if t.isEscaped then 2 else 1

/-- The token as it is written. -/
def written (t : Token) : String := String.ofList (if t.isEscaped then ['\\', t.char] else [t.char])

/-- The token is this character, unescaped. -/
def isPlain (t : Token) (c : Char) : Bool := !t.isEscaped && t.char == c

end Token

/-- What the reader knows at a point of the pattern. -/
structure Progress where
  /-- The characters of the pattern. -/
  source : Array Char
  /-- The position behind the next token. -/
  index : Nat
  /-- The next token. -/
  next : Option Token
  /-- The flags that hold throughout. -/
  flags : Flags
  /-- The width of each group that was opened, once it is closed; the whole pattern is the first. -/
  widths : Array (Option (Nat × Nat))
  /-- The groups with names. -/
  names : List (String × Nat)
  /-- The number of groups that stood open when the reading of what lies behind began. -/
  behindGroups : Option Nat
  /-- The groups that conditions refer to by number, each with the position of the first reference. -/
  conditions : List (Nat × Nat)

/-- Readers keep their progress and may refuse the pattern. -/
abbrev Reading := StateT Progress (Except Fault)

namespace Reading

/-- The position of the next token. -/
def position : Reading Nat := do
  let p ← get
  return p.index - (p.next.map Token.width).getD 0

/-- Refuses the pattern at a position that lies `back` characters before the next token. -/
def refuse {α : Type} (reason : String) (back : Nat) : Reading α := do
  throw (.malformed reason (some ((← position) - back)))

/-- Refuses the pattern at a position. -/
def refuseAt {α : Type} (reason : String) (position : Nat) : Reading α :=
  throw (.malformed reason (some position))

/-- Moves to the next token. -/
def advance : Reading Unit := do
  let p ← get
  match p.source[p.index]? with
  | none => set { p with next := none }
  | some '\\' =>
    match p.source[p.index + 1]? with
    | none => refuseAt "bad escape (end of pattern)" (p.source.size - 1)
    | some c => set { p with index := p.index + 2, next := some ⟨true, c⟩ }
  | some c => set { p with index := p.index + 1, next := some ⟨false, c⟩ }

/-- The next token. -/
def peek : Reading (Option Token) := do return (← get).next

/-- The next token, if there is one and it is unescaped. -/
def peekChar : Reading (Option Char) := do
  match ← peek with
  | some ⟨false, c⟩ => return some c
  | _ => return none

/-- Takes the next token. -/
def take : Reading (Option Token) := do
  let t ← peek
  advance
  return t

/-- Takes the next token if it is the given character. -/
def accept (c : Char) : Reading Bool := do
  match ← peek with
  | some t => if t.isPlain c then advance; return true else return false
  | none => return false

/-- Goes back to a position. -/
def seek (index : Nat) : Reading Unit := do
  modify fun p => { p with index := index }
  advance

/-- Takes at most `n` tokens of one character that pass a test. -/
def takeWhile (test : Char → Bool) : Nat → Reading (List Char)
  | 0 => return []
  | n + 1 => do
    match ← peekChar with
    | some c =>
      if test c then
        advance
        return c :: (← takeWhile test n)
      else return []
    | none => return []

/-- Takes what stands before a terminator, and the terminator. -/
def takeUntil (terminator : Char) (what : String) : Nat → String → Reading String
  | 0, _ => refuse ("missing " ++ what) 0
  | n + 1, found => do
    match ← take with
    | none =>
      if found.isEmpty then refuse ("missing " ++ what) 0
      else
        refuse ("missing " ++ terminator.toString ++ ", unterminated name") found.length
    | some t =>
      if t.isPlain terminator then
        if found.isEmpty then refuse ("missing " ++ what) 1 else return found
      else takeUntil terminator what n (found ++ t.written)

/-- The number of characters of the pattern, as a bound for the readers above. -/
def bound : Reading Nat := do return (← get).source.size + 1

end Reading

open Reading

/-- A digit of base sixteen. -/
def isHexDigit (c : Char) : Bool :=
  c.isDigit || ('a' ≤ c && c ≤ 'f') || ('A' ≤ c && c ≤ 'F')

/-- A digit of base eight. -/
def isOctalDigit (c : Char) : Bool := '0' ≤ c && c ≤ '7'

/-- The value of digits in a base. -/
def valueIn (base : Nat) (digits : List Char) : Nat :=
  digits.foldl (fun n c => base * n + (if c.isDigit then c.toNat - 48 else c.toLower.toNat - 87)) 0

/-- A name that a group may have: letters, digits and underscores, and no digit in front. -/
def isGroupName (s : String) : Bool :=
  match s.toList with
  | c :: rest => Text.isWord c && !Text.isDecimalDigit c && rest.all Text.isWord
  | [] => false

/-- The letters that escape a control character. -/
def controlEscape? : Char → Option Nat
  | 'a' => some 7
  | 'b' => some 8
  | 'f' => some 12
  | 'n' => some 10
  | 'r' => some 13
  | 't' => some 9
  | 'v' => some 11
  | '\\' => some 92
  | _ => none

/-- The letters that escape a class. -/
def classEscape? : Char → Option Member
  | 'd' => some (.named false .digit)
  | 'D' => some (.named true .digit)
  | 's' => some (.named false .space)
  | 'S' => some (.named true .space)
  | 'w' => some (.named false .word)
  | 'W' => some (.named true .word)
  | _ => none

/-- The letters that escape a place. -/
def anchorEscape? : Char → Option Anchor
  | 'A' => some .textStart
  | 'Z' => some .textStop
  | 'b' => some (.wordEdge false)
  | 'B' => some (.wordEdge true)
  | _ => none

/-- Reads the digits of an escape by code point; `c` is the letter that opens it. -/
def readHex (c : Char) (count : Nat) : Reading Nat := do
  let digits ← takeWhile isHexDigit count
  let written := String.ofList ('\\' :: c :: digits)
  if digits.length != count then refuse ("incomplete escape " ++ written) written.length
  let code := valueIn 16 digits
  if code > 0x10FFFF then refuse ("bad escape " ++ written) written.length
  return code

/-- Reads an escape by the name of a character, and refuses it, since names are not kept. -/
def readNamed : Reading Nat := do
  if !(← accept '\x7b') then refuse "missing \x7b" 0
  let name ← takeUntil '\x7d' "character name" (← bound) ""
  refuse ("undefined character name " ++ Text.quoted name) (name.length + 4)

/-- The escapes that mean the same inside and outside of sets. -/
def readCodeEscape? (c : Char) : Option (Reading Nat) :=
  match c with
  | 'x' => some (readHex c 2)
  | 'u' => some (readHex c 4)
  | 'U' => some (readHex c 8)
  | 'N' => some readNamed
  | _ => none

/-- Refuses an escape that is none; `written` is what was taken of it. -/
def refuseEscape {α : Type} (written : List Char) : Reading α :=
  refuse ("bad escape " ++ String.ofList ('\\' :: written)) (written.length + 1)

/-- Refuses an octal escape that stands for no byte. -/
def refuseOctal {α : Type} (digits : List Char) : Reading α :=
  refuse ("octal escape value " ++ String.ofList ('\\' :: digits)
    ++ " outside of range 0-0o377") (digits.length + 1)

/-- Reads an escape inside a set. -/
def readSetEscape (c : Char) : Reading Member := do
  match controlEscape? c with
  | some code => return .one code
  | none =>
    match classEscape? c, readCodeEscape? c with
    | some m, _ => return m
    | none, some reader => return .one (← reader)
    | none, none =>
      if isOctalDigit c then
        let digits := c :: (← takeWhile isOctalDigit 2)
        if valueIn 8 digits > 255 then refuseOctal digits
        return .one (valueIn 8 digits)
      else if c.isAlphanum then refuseEscape [c]
      else return .one c.toNat

/-- A group that may be referred to: it is closed, and was open before what lies behind was read. -/
def checkBehind (group : Nat) : Reading Unit := do
  let p ← get
  match p.behindGroups with
  | none => return ()
  | some limit =>
    if (p.widths[group]?.bind id).isNone then refuse "cannot refer to an open group" 0
    if limit ≤ group then
      refuse "cannot refer to group defined in the same lookbehind subpattern" 0

/-- The reference to a group that is known; `back` is where a refusal points. -/
def referTo (group back : Nat) : Reading Node := do
  match (← get).widths[group]?.bind id with
  | none => refuse "cannot refer to an open group" back
  | some (least, most) =>
    checkBehind group
    return .backref group least most

/-- Reads an escape outside of sets. -/
def readEscape (c : Char) : Reading Node := do
  match classEscape? c, anchorEscape? c, controlEscape? c with
  | some m, _, _ => return .set false [m]
  | _, some a, _ => return .anchor a
  | _, _, some code => return .literal code
  | none, none, none =>
    match readCodeEscape? c with
    | some reader => return .literal (← reader)
    | none =>
      if c == '0' then
        let digits := c :: (← takeWhile isOctalDigit 2)
        return .literal (valueIn 8 digits)
      else if c.isDigit then
        let second ← takeWhile Char.isDigit 1
        let third ←
          if isOctalDigit c && !second.isEmpty && second.all isOctalDigit then
            takeWhile isOctalDigit 1
          else pure []
        let digits := c :: (second ++ third)
        if !third.isEmpty then
          if valueIn 8 digits > 255 then refuseOctal digits
          return .literal (valueIn 8 digits)
        let group := valueIn 10 digits
        if group < (← get).widths.size then referTo group (digits.length + 1)
        else refuse ("invalid group reference " ++ toString group) digits.length
      else if c.isAlpha then refuseEscape [c]
      else return .literal c.toNat

/-- Reads the rest of a set, whose opening bracket stands at `here`. -/
def readSet (here : Nat) : Nat → List Member → Reading (List Member)
  | 0, _ => refuseAt "unterminated character set" here
  | n + 1, members => do
    match ← take with
    | none => refuseAt "unterminated character set" here
    | some this =>
      if this.isPlain ']' && !members.isEmpty then return members.reverse
      let first ← if this.isEscaped then readSetEscape this.char else pure (.one this.char.toNat)
      if ← accept '-' then
        match ← take with
        | none => refuseAt "unterminated character set" here
        | some that =>
          if that.isPlain ']' then return (.one 45 :: first :: members).reverse
          let last ← if that.isEscaped then readSetEscape that.char else pure (.one that.char.toNat)
          let reason := "bad character range " ++ this.written ++ "-" ++ that.written
          match first, last with
          | .one low, .one high =>
            if high < low then refuse reason (this.width + 1 + that.width)
            readSet here n (.range low high :: members)
          | _, _ => refuse reason (this.width + 1 + that.width)
      else readSet here n (first :: members)

/-- The flag of a letter; the last letter is known and sets nothing. -/
def flagOf? : Char → Option Flags
  | 'i' => some { ignoreCase := true }
  | 'm' => some { multiline := true }
  | 's' => some { dotAll := true }
  | 'x' => some { verbose := true }
  | 'a' => some { ascii := true }
  | 'u' => some { unicode := true }
  | 't' => some {}
  | _ => none

/-- The character is the letter of a flag. -/
def isFlagLetter (c : Char) : Bool := c == 'L' || (flagOf? c).isSome

/-- The flag of a token, or why it has none. -/
def unknownFlag (t : Token) (otherwise : String) : String :=
  if !t.isEscaped && Text.isWord t.char && !Text.isDecimalDigit t.char && t.char != '_' then
    "unknown flag"
  else otherwise

/-- Reads the letters of flags that are turned on, and the character that ends them. -/
def readFlagsOn : Nat → Char → Flags → Reading (Flags × Char)
  | 0, _, _ => refuse "missing -, : or )" 0
  | n + 1, c, flags => do
    if c == 'L' then refuse "bad inline flags: cannot use 'L' flag with a str pattern" 0
    let flags := flags.union ((flagOf? c).getD {})
    if flags.ascii && flags.unicode && (c == 'a' || c == 'u') then
      refuse "bad inline flags: flags 'a', 'u' and 'L' are incompatible" 0
    match ← take with
    | none => refuse "missing -, : or )" 0
    | some t =>
      if t.isPlain ')' || t.isPlain '-' || t.isPlain ':' then return (flags, t.char)
      if t.isEscaped || !isFlagLetter t.char then
        refuse (unknownFlag t "missing -, : or )") t.width
      readFlagsOn n t.char flags

/-- Reads the letters of flags that are turned off, up to the colon. -/
def readFlagsOff : Nat → Char → Flags → Reading Flags
  | 0, _, _ => refuse "missing :" 0
  | n + 1, c, flags => do
    if c == 'a' || c == 'u' || c == 'L' then
      refuse "bad inline flags: cannot turn off flags 'a', 'u' and 'L'" 0
    if c == 't' then
      -- a flag that holds throughout cannot be turned off for a group
      match ← take with
      | some t => if t.isPlain ':' then refuse "bad inline flags: cannot turn off global flag" 1
      | none => refuse "missing :" 0
    let flags := flags.union ((flagOf? c).getD {})
    match ← take with
    | none => refuse "missing :" 0
    | some t =>
      if t.isPlain ':' then return flags
      if t.isEscaped || !isFlagLetter t.char then refuse (unknownFlag t "missing :") t.width
      readFlagsOff n t.char flags

/-- Reads flags that open with the given character. The answer is what a group turns on and off, or
nothing if the flags hold throughout. -/
def readFlags (c : Char) : Reading (Option (Flags × Flags)) := do
  let (on, stop) ← if c == '-' then pure ({}, '-') else readFlagsOn (← bound) c {}
  if stop == ')' then
    modify fun p => { p with flags := p.flags.union on }
    return none
  if stop == ':' then return some (on, {})
  match ← take with
  | none => refuse "missing flag" 0
  | some t =>
    if t.isEscaped || !isFlagLetter t.char then refuse (unknownFlag t "missing flag") t.width
    let off ← readFlagsOff (← bound) t.char {}
    if !((on.without (on.without off)).isNone) then
      refuse "bad inline flags: flag turned on and off" 1
    return some (on, off)

/-- Reads a number of a repetition count, if there is one. -/
def readCount? : Reading (Option Nat) := do
  let digits ← takeWhile Char.isDigit (← bound)
  return if digits.isEmpty then none else some (valueIn 10 digits)

/-- The first repetition count that is out of range. -/
def countLimit : Nat := 4294967295

/-- Reads the bounds of a repetition in braces. The answer is nothing if the brace opens none, and then
it stands for itself. -/
def readBounds? (here : Nat) : Reading (Option (Nat × Option Nat)) := do
  if (← peekChar) == some '\x7d' then return none
  let low ← readCount?
  let high ← if ← accept ',' then readCount? else pure low
  if !(← accept '\x7d') then
    seek here
    return none
  for n in low.toList ++ high.toList do
    if countLimit ≤ n then throw .countTooLarge
  let least := low.getD 0
  match high with
  | none => return some (least, none)
  | some most =>
    if most < least then refuseAt "min repeat greater than max repeat" here
    return some (least, some most)

/-- A tree that may not be repeated, and why. -/
def repeatRefusal? : List Node → Option String
  | [] => some "nothing to repeat"
  | .anchor _ :: _ => some "nothing to repeat"
  | .repetition .. :: _ => some "multiple repeat"
  | _ => none

/-- Opens a group that remembers its match. -/
def openGroup (name : Option String) : Reading Nat := do
  let p ← get
  let group := p.widths.size
  match name with
  | none => set { p with widths := p.widths.push none }
  | some name =>
    match p.names.lookup name with
    | some other =>
      refuse ("redefinition of group name " ++ Text.quoted name ++ " as group " ++ toString group
        ++ "; was group " ++ toString other) (name.length + 1)
    | none => set { p with widths := p.widths.push none, names := (name, group) :: p.names }
  return group

/-- Closes a group. -/
def closeGroup (group : Nat) (body : Node) : Reading Unit :=
  modify fun p => { p with widths := p.widths.setIfInBounds group (some body.width) }

/-- Reads a group name up to its terminator. -/
def readName (terminator : Char) : Reading String := do
  let name ← takeUntil terminator "group name" (← bound) ""
  if !isGroupName name then
    refuse ("bad character in group name " ++ Text.quoted name) (name.length + 1)
  return name

/-- The group that a condition names. -/
def readCondition : Reading Nat := do
  let name ← takeUntil ')' "group name" (← bound) ""
  let group ←
    if isGroupName name then
      match (← get).names.lookup name with
      | some group => pure group
      | none => refuse ("unknown group name " ++ Text.quoted name) (name.length + 1)
    else match Number.readInt? name with
    | some (.ofNat group) =>
      if group = 0 then refuse "bad group number" (name.length + 1)
      if group ≥ 2147483647 then
        refuse ("invalid group reference " ++ toString group) (name.length + 1)
      let place := (← position) - name.length - 1
      modify fun p =>
        if (p.conditions.lookup group).isSome then p
        else { p with conditions := p.conditions ++ [(group, place)] }
      pure group
    | _ => refuse ("bad character in group name " ++ Text.quoted name) (name.length + 1)
  checkBehind group
  return group

/-- Skips a comment in parentheses that opened at `start`. -/
def skipComment (start : Nat) : Nat → Reading Unit
  | 0 => refuseAt "missing ), unterminated comment" start
  | n + 1 => do
    if (← peek).isNone then refuseAt "missing ), unterminated comment" start
    match ← take with
    | some t => if t.isPlain ')' then return () else skipComment start n
    | none => return ()

/-- Skips a comment up to the end of its line. -/
def skipLine : Nat → Reading Unit
  | 0 => return ()
  | n + 1 => do
    match ← take with
    | none => return ()
    | some t => if t.isPlain '\n' then return () else skipLine n

/-- What the character after the opening of an extended group makes of it. -/
inductive Opening where
  /-- Nothing more: the group was a comment or set flags, or was read to its end. -/
  | done (node : Option Node)
  /-- A group that remembers its match, under a name if it has one. -/
  | capture (name : Option String)
  /-- A group that only holds things together, perhaps under flags of its own. -/
  | plain (on off : Flags)
  /-- A group that keeps to its first match. -/
  | atomic
  /-- An assertion. -/
  | look (behind negated : Bool)
  /-- A choice by whether a group has matched. -/
  | condition

/-- Reads what follows the question mark of an extended group that opened at `start`. -/
def readOpening (start : Nat) (atFront : Bool) : Reading Opening := do
  match ← take with
  | none => refuse "unexpected end of pattern" 0
  | some ⟨true, c⟩ => refuse ("unknown extension ?\\" ++ c.toString) 3
  | some ⟨false, 'P'⟩ =>
    if ← accept '<' then return .capture (some (← readName '>'))
    if ← accept '=' then
      let name ← readName ')'
      match (← get).names.lookup name with
      | none => refuse ("unknown group name " ++ Text.quoted name) (name.length + 1)
      | some group => return .done (some (← referTo group (name.length + 1)))
    match ← take with
    | none => refuse "unexpected end of pattern" 0
    | some t => refuse ("unknown extension ?P" ++ t.written) (t.width + 2)
  | some ⟨false, ':'⟩ => return .plain {} {}
  | some ⟨false, '#'⟩ =>
    skipComment start (← bound)
    return .done none
  | some ⟨false, '='⟩ => return .look false false
  | some ⟨false, '!'⟩ => return .look false true
  | some ⟨false, '<'⟩ =>
    match ← take with
    | none => refuse "unexpected end of pattern" 0
    | some t =>
      if t.isPlain '=' then return .look true false
      if t.isPlain '!' then return .look true true
      refuse ("unknown extension ?<" ++ t.written) (t.width + 2)
  | some ⟨false, '('⟩ => return .condition
  | some ⟨false, '>'⟩ => return .atomic
  | some ⟨false, c⟩ =>
    if c != '-' && !isFlagLetter c then refuse ("unknown extension ?" ++ c.toString) 2
    match ← readFlags c with
    | some (on, off) => return .plain on off
    | none =>
      if !atFront then refuseAt "global flags not at the start of the expression" start
      return .done none

/-- Closes a group that opened at `start`. -/
def closeAt (start : Nat) : Reading Unit := do
  if !(← accept ')') then refuseAt "missing ), unterminated subpattern" start

/-- Reads the mark behind a repetition that tells how much it takes. -/
def readGreed : Reading Greed := do
  if ← accept '?' then return .lazy
  if ← accept '+' then return .possessive
  return .greedy

mutual

/-- Reads alternatives up to a closing parenthesis or the end. -/
def readChoice : Nat → (verbose nested : Bool) → Reading Node
  | 0, _, _ => refuse "pattern too deep" 0
  | n + 1, verbose, nested => do
    let first ← readSequence n verbose (!nested) []
    let branches ← readBranches n verbose nested
    return if branches.isEmpty then first else .choice (first :: branches)

/-- Reads the alternatives behind the first one. -/
def readBranches : Nat → (verbose nested : Bool) → Reading (List Node)
  | 0, _, _ => refuse "pattern too deep" 0
  | n + 1, verbose, nested => do
    if !(← accept '|') then return []
    let throughout := (← get).flags
    let verbose := if nested then verbose else throughout.verbose
    let branch ← readSequence n verbose false []
    return branch :: (← readBranches n verbose nested)

/-- Reads trees one after the other; those already read stand in `items`, the latest first. -/
def readSequence : Nat → (verbose first : Bool) → List Node → Reading Node
  | 0, _, _, _ => refuse "pattern too deep" 0
  | n + 1, verbose, first, items => do
    match ← peek with
    | none => return .sequence items.reverse
    | some ⟨true, c⟩ =>
      advance
      let node ← readEscape c
      readSequence n verbose first (node :: items)
    | some ⟨false, c⟩ =>
      if c == '|' || c == ')' then return .sequence items.reverse
      advance
      if verbose && Text.isAsciiBlank c then readSequence n verbose first items
      else if verbose && c == '#' then
        skipLine (← bound)
        readSequence n verbose first items
      else match c with
        | '.' => readSequence n verbose first (.any :: items)
        | '^' => readSequence n verbose first (.anchor .start :: items)
        | '$' => readSequence n verbose first (.anchor .stop :: items)
        | '[' =>
          let here := (← position) - 1
          let negated ← accept '^'
          let members ← readSet here (← bound) []
          readSequence n verbose first (.set negated members :: items)
        | '*' | '+' | '?' | '\x7b' =>
          let here ← position
          let bounds? ← match c with
            | '*' => pure (some (0, none))
            | '+' => pure (some (1, none))
            | '?' => pure (some (0, some 1))
            | _ => readBounds? here
          match bounds?, items with
          | none, _ => readSequence n verbose first (.literal c.toNat :: items)
          | some (least, most), items =>
            match repeatRefusal? items with
            | some reason => refuseAt reason (here - 1)
            | none =>
              let greed ← readGreed
              match items with
              | [] => refuseAt "nothing to repeat" (here - 1)
              | item :: before =>
                readSequence n verbose first (.repetition greed least most item :: before)
        | '(' =>
          let start := (← position) - 1
          let extended ← accept '?'
          let opening ←
            if extended then readOpening start (first && items.isEmpty) else pure (.capture none)
          let node? ← readGroup n verbose start opening
          let throughout := (← get).flags
          -- flags that hold throughout stand in front, and take effect at once
          let verbose := if first && items.isEmpty then throughout.verbose || verbose else verbose
          readSequence n verbose first (node?.toList ++ items)
        | c => readSequence n verbose first (.literal c.toNat :: items)

/-- Reads the rest of a group that opened at `start`. -/
def readGroup : Nat → Bool → Nat → Opening → Reading (Option Node)
  | 0, _, _, _ => refuse "pattern too deep" 0
  | n + 1, verbose, start, opening => do
    match opening with
    | .done node => return node
    | .capture name =>
      let group ← openGroup name
      let body ← readChoice n verbose true
      closeAt start
      closeGroup group body
      return some (.capture group body)
    | .plain on off =>
      let body ← readChoice n ((verbose || on.verbose) && !off.verbose) true
      closeAt start
      return some (.flagged on off body)
    | .atomic =>
      let body ← readChoice n verbose true
      closeAt start
      return some (.atomic body)
    | .look behind negated =>
      let outer := (← get).behindGroups
      if behind && outer.isNone then
        modify fun p => { p with behindGroups := some p.widths.size }
      let body ← readChoice n verbose true
      if behind then modify fun p => { p with behindGroups := outer }
      closeAt start
      return some (.look (if behind then some body.width.1 else none) negated body)
    | .condition =>
      let group ← readCondition
      let yes ← readSequence n verbose false []
      let no ←
        if ← accept '|' then
          let no ← readSequence n verbose false []
          if (← peekChar) == some '|' then
            refuse "conditional backref with more than two branches" 0
          pure no
        else pure (.sequence [])
      closeAt start
      return some (.conditional group yes no)

end

mutual

/-- Some assertion looks behind over a length that is not fixed. -/
def Node.looksBehindVariably : Node → Bool
  | .look (some _) _ body => body.width.1 != body.width.2 || body.looksBehindVariably
  | .look none _ body => body.looksBehindVariably
  | .sequence items => Node.someLooksBehindVariably items
  | .choice branches => Node.someLooksBehindVariably branches
  | .repetition _ _ _ body | .capture _ body | .flagged _ _ body | .atomic body =>
    body.looksBehindVariably
  | .conditional _ yes no => yes.looksBehindVariably || no.looksBehindVariably
  | _ => false

/-- Some tree of a list looks behind over a length that is not fixed. -/
def Node.someLooksBehindVariably : List Node → Bool
  | [] => false
  | item :: rest => item.looksBehindVariably || Node.someLooksBehindVariably rest

end

/-- Reads a whole pattern. -/
def readAll (given : Flags) : Reading Compiled := do
  advance
  let size := (← get).source.size
  let node ← readChoice (4 * size + 8) given.verbose false
  let flags := (← get).flags
  if flags.ascii && flags.unicode then throw .flagsExclude
  if (← peek).isSome then refuse "unbalanced parenthesis" 0
  let p ← get
  match p.conditions.find? fun c => decide (p.widths.size ≤ c.1) with
  | some (group, place) => refuseAt ("invalid group reference " ++ toString group) place
  | none => pure ()
  if node.looksBehindVariably then throw (.malformed "look-behind requires fixed-width pattern" none)
  return ⟨node, flags⟩

/-- Reads a pattern under flags given from outside. -/
def compile (given : Flags) (pattern : String) : Except Fault Compiled :=
  let start : Progress := ⟨pattern.toList.toArray, 0, none, given, #[none], [], none, []⟩
  (readAll given).run' start

end RankingEval.Pattern
