/-
# Searching with a regular expression

A tree is matched against a text by following its choices in order until the rest of the pattern matches
too. The rest is a continuation, so the search is a recursion on the tree; a repetition recurses on a
bound that the text gives, since each iteration that is not required starts at a place of its own.
-/

import RankingEval.Pattern.Basic
import RankingEval.Text.Case
import RankingEval.Text.DecimalDigit
import RankingEval.Text.Letter

namespace RankingEval.Pattern

open RankingEval.Text

/-- A place in the text, with what the groups have matched so far. -/
structure Place where
  /-- The number of characters before the place. -/
  position : Nat
  /-- The latest match of each group, as start and end. -/
  groups : List (Nat × Nat × Nat)

/-- The character belongs to a class. -/
def Class.holds (ascii : Bool) (c : Class) (x : Char) : Bool :=
  match c with
  | .digit => if ascii then x.isDigit else isDecimalDigit x
  | .space => if ascii then isAsciiBlank x else isBlank x
  | .word => if ascii then isAsciiWord x else isWord x

/-- The lower-case form under the given flags. -/
def Flags.fold (f : Flags) (code : Nat) : Nat := if f.ascii then lowerAscii code else lower code

/-- Two code points are the same under the given flags. -/
def Flags.equal (f : Flags) (a b : Nat) : Bool :=
  if !f.ignoreCase then a == b
  else
    let a := f.fold a
    let b := f.fold b
    a == b || (!f.ascii && (alike a).contains b)

/-- Some code point of a range has the same lower-case form as the given one. -/
def Flags.rangeHolds (f : Flags) (first last code : Nat) : Bool :=
  if !f.ignoreCase then first ≤ code && code ≤ last
  else if f.ascii then
    let low := lowerAscii code
    (first ≤ low && low ≤ last) || (97 ≤ low && low ≤ 122 && first ≤ low - 32 && low - 32 ≤ last)
  else (alike (lower code)).any (rangeLowersTo first last)

/-- The character is a member of a set. -/
def Member.holds (f : Flags) (m : Member) (x : Char) : Bool :=
  match m with
  | .one code => f.equal code x.toNat
  | .range first last => f.rangeHolds first last x.toNat
  | .named negated c =>
    let x := if f.ignoreCase then Char.ofNat (f.fold x.toNat) else x
    c.holds f.ascii x != negated

/-- The place is at an anchor. -/
def Anchor.holds (f : Flags) (text : Array Char) (a : Anchor) (i : Nat) : Bool :=
  let isFeed (j : Nat) : Bool := text[j]? == some '\n'
  let isWordAt (j : Nat) : Bool := (text[j]?.map (Class.word.holds f.ascii)).getD false
  match a with
  | .start => i == 0 || (f.multiline && isFeed (i - 1))
  | .stop =>
    if f.multiline then i == text.size || isFeed i
    else i == text.size || (i + 1 == text.size && isFeed i)
  | .textStart => i == 0
  | .textStop => i == text.size
  | .wordEdge negated =>
    text.size != 0 && ((decide (0 < i) && isWordAt (i - 1)) != isWordAt i) != negated

/-- The rest of a match: where it leads to from a place. -/
abbrev Rest := Place → Option Place

/-- Takes one character if it passes a test. -/
def step (text : Array Char) (test : Char → Bool) (rest : Rest) (p : Place) : Option Place :=
  match text[p.position]? with
  | some c => if test c then rest { p with position := p.position + 1 } else none
  | none => none

/-- Repeats a body. An iteration beyond the required number is tried only at a place where the one before
it did not start, so `fuel` need only exceed the required number by the characters left. -/
def loop (body : Rest → Place → Option Place) (lazy : Bool) (least : Nat) (most : Option Nat)
    (rest : Rest) : (fuel count : Nat) → (last : Option Nat) → Place → Option Place
  | 0, _, _, p => rest p
  | fuel + 1, count, last, p =>
    if count < least then body (loop body lazy least most rest fuel (count + 1) last) p
    else
      let allowed := (most.all fun n => decide (count < n)) && last != some p.position
      let again : Unit → Option Place := fun _ =>
        if allowed then body (loop body lazy least most rest fuel (count + 1) (some p.position)) p
        else none
      if lazy then
        match rest p with
        | some found => some found
        | none => again ()
      else
        match again () with
        | some found => some found
        | none => rest p

/-- Repeats a body and keeps to the first way in which each iteration matches. -/
def loopPossessive (body : Rest → Place → Option Place) (least : Nat) (most : Option Nat) :
    (fuel count : Nat) → Place → Option Place
  | 0, _, p => some p
  | fuel + 1, count, p =>
    if count < least then
      match body some p with
      | some next => loopPossessive body least most fuel (count + 1) next
      | none => none
    else if most.all fun n => decide (count < n) then
      match body some p with
      | some next =>
        if next.position == p.position then some next
        else loopPossessive body least most fuel (count + 1) next
      | none => some p
    else some p

/-- The number of characters in a row, from a position on, that pass a test, and at most `bound`. -/
def countRun (text : Array Char) (test : Char → Bool) : (bound i : Nat) → Nat
  | 0, _ => 0
  | bound + 1, i =>
    match text[i]? with
    | some c => if test c then countRun text test bound (i + 1) + 1 else 0
    | none => 0

/-- Tries the rest after `n` characters, then after fewer, down to `least`. -/
def giveBack (rest : Rest) (p : Place) (least : Nat) : Nat → Option Place
  | 0 => if least = 0 then rest p else none
  | n + 1 =>
    if n + 1 < least then none
    else
      match rest { p with position := p.position + (n + 1) } with
      | some found => some found
      | none => giveBack rest p least n

/-- The test that a tree of one character makes. -/
def Node.single? (f : Flags) : Node → Option (Char → Bool)
  | .literal code => some fun c => f.equal code c.toNat
  | .any => some fun c => f.dotAll || c != '\n'
  | .set negated members => some fun c => (members.any fun m => m.holds f c) != negated
  | _ => none

/-- Whether the text holds, from two positions on, the same characters over a length. -/
def sameRun (f : Flags) (text : Array Char) : (length i j : Nat) → Bool
  | 0, _, _ => true
  | length + 1, i, j =>
    match text[i]?, text[j]? with
    | some a, some b =>
      (if f.ignoreCase then f.fold a.toNat == f.fold b.toNat else a == b)
        && sameRun f text length (i + 1) (j + 1)
    | _, _ => false

mutual

/-- Matches a tree at a place, followed by the rest. -/
def Node.run (text : Array Char) (f : Flags) : Node → Rest → Place → Option Place
  | .literal code, rest, p => step text (fun c => f.equal code c.toNat) rest p
  | .any, rest, p => step text (fun c => f.dotAll || c != '\n') rest p
  | .set negated members, rest, p =>
    step text (fun c => (members.any fun m => m.holds f c) != negated) rest p
  | .anchor a, rest, p => if a.holds f text p.position then rest p else none
  | .sequence items, rest, p => Node.runAll text f items rest p
  | .choice branches, rest, p => Node.runAny text f branches rest p
  | .repetition greed least most body, rest, p =>
    let left := text.size - p.position
    match body.single? f, greed with
    | some test, .greedy =>
      giveBack rest p least (countRun text test ((most.map (min left)).getD left) p.position)
    | _, .possessive =>
      match loopPossessive (fun rest p => body.run text f rest p) least most (least + left + 2) 0 p with
      | some next => rest next
      | none => none
    | _, _ =>
      loop (fun rest p => body.run text f rest p) (greed == .lazy) least most rest
        (least + left + 2) 0 none p
  | .capture index body, rest, p =>
    body.run text f
      (fun q =>
        let others := q.groups.filter fun g => g.1 != index
        rest { q with groups := (index, p.position, q.position) :: others }) p
  | .flagged on off body, rest, p => body.run text (f.within on off) rest p
  | .atomic body, rest, p =>
    match body.run text f some p with
    | some next => rest next
    | none => none
  | .look behind negated body, rest, p =>
    let back := behind.getD 0
    let found :=
      if p.position < back then none
      else body.run text f some { p with position := p.position - back }
    match found, negated with
    | some q, false => rest { p with groups := q.groups }
    | none, true => rest p
    | _, _ => none
  | .backref index _ _, rest, p =>
    match p.groups.lookup index with
    | some (first, stop) =>
      let length := stop - first
      if sameRun f text length first p.position then
        rest { p with position := p.position + length }
      else none
    | none => none
  | .conditional index yes no, rest, p =>
    if (p.groups.lookup index).isSome then yes.run text f rest p else no.run text f rest p

/-- Matches trees one after the other. -/
def Node.runAll (text : Array Char) (f : Flags) : List Node → Rest → Place → Option Place
  | [], rest, p => rest p
  | item :: items, rest, p => item.run text f (fun q => Node.runAll text f items rest q) p

/-- Matches the first of several trees that lets the rest match. -/
def Node.runAny (text : Array Char) (f : Flags) : List Node → Rest → Place → Option Place
  | [], _, _ => none
  | branch :: branches, rest, p =>
    match branch.run text f rest p with
    | some found => some found
    | none => Node.runAny text f branches rest p

end

end RankingEval.Pattern
