/-
# Regular expressions

The tree of a regular expression. Besides literals, sets and repetition it has groups that remember what
they matched, references back to them, conditions on them, and assertions about what stands ahead or
behind. `Node.width` bounds the lengths that a tree can match, which decides whether it may look behind.
-/

namespace RankingEval.Pattern

/-- How characters are compared and which anchors and classes mean what. -/
structure Flags where
  /-- Case makes no difference. -/
  ignoreCase : Bool := false
  /-- Anchors match at every line. -/
  multiline : Bool := false
  /-- The dot matches line feeds too. -/
  dotAll : Bool := false
  /-- White space and comments in the pattern are skipped. -/
  verbose : Bool := false
  /-- Classes are those of ASCII. -/
  ascii : Bool := false
  /-- Classes are those of Unicode, asked for explicitly. -/
  unicode : Bool := false
deriving DecidableEq, Repr

namespace Flags

/-- The flags of either side. -/
def union (f g : Flags) : Flags :=
  ⟨f.ignoreCase || g.ignoreCase, f.multiline || g.multiline, f.dotAll || g.dotAll,
    f.verbose || g.verbose, f.ascii || g.ascii, f.unicode || g.unicode⟩

/-- The flags of the left side that are not on the right side. -/
def without (f g : Flags) : Flags :=
  ⟨f.ignoreCase && !g.ignoreCase, f.multiline && !g.multiline, f.dotAll && !g.dotAll,
    f.verbose && !g.verbose, f.ascii && !g.ascii, f.unicode && !g.unicode⟩

/-- No flag is set. -/
def isNone (f : Flags) : Bool := f == {}

/-- Flags inside a group that turns some on and some off; a choice of character classes replaces the
choice outside. -/
def within (f on off : Flags) : Flags :=
  let outside := if on.ascii || on.unicode then f.without { ascii := true, unicode := true } else f
  (outside.union on).without off

end Flags

/-- Classes of characters with a name of one letter. -/
inductive Class where
  /-- Decimal digits. -/
  | digit
  /-- White space. -/
  | space
  /-- Letters, numbers and the underscore. -/
  | word
deriving DecidableEq, Repr

/-- A member of a character set. -/
inductive Member where
  /-- One code point. -/
  | one (code : Nat)
  /-- All code points between two, both included. -/
  | range (first last : Nat)
  /-- A class, or all that is outside of it. -/
  | named (negated : Bool) (c : Class)
deriving DecidableEq, Repr

/-- Places that match without taking a character. -/
inductive Anchor where
  /-- The start of the text, or of a line where lines count. -/
  | start
  /-- The end of the text or before a last line feed, or the end of a line where lines count. -/
  | stop
  /-- The very start of the text. -/
  | textStart
  /-- The very end of the text. -/
  | textStop
  /-- A place between a word character and another one, or the inside or outside of words. -/
  | wordEdge (negated : Bool)
deriving DecidableEq, Repr

/-- How a repetition chooses its length. -/
inductive Greed where
  /-- As long as possible, giving back what the rest needs. -/
  | greedy
  /-- As short as possible. -/
  | lazy
  /-- As long as possible, giving nothing back. -/
  | possessive
deriving DecidableEq, Repr

/-- A regular expression. -/
inductive Node where
  /-- One code point. -/
  | literal (code : Nat)
  /-- Any character. -/
  | any
  /-- A character of a set, or outside of it. -/
  | set (negated : Bool) (members : List Member)
  /-- A place. -/
  | anchor (a : Anchor)
  /-- One after the other. -/
  | sequence (items : List Node)
  /-- One of several, the first that leads to a match. -/
  | choice (branches : List Node)
  /-- A repetition, without an upper bound if there is none. -/
  | repetition (greed : Greed) (least : Nat) (most : Option Nat) (body : Node)
  /-- A group that remembers its match. -/
  | capture (index : Nat) (body : Node)
  /-- A group with flags of its own. -/
  | flagged (on off : Flags) (body : Node)
  /-- A group that keeps to its first match. -/
  | atomic (body : Node)
  /-- An assertion about what follows, or about what precedes over the given number of characters. -/
  | look (behind : Option Nat) (negated : Bool) (body : Node)
  /-- What a group matched, once more; the widths are those of the group. -/
  | backref (index least most : Nat)
  /-- One of two, by whether a group has matched. -/
  | conditional (index : Nat) (yes no : Node)

/-- The length that stands for "without bound". -/
def unbounded : Nat := Nat.pow 2 64

mutual

/-- The least and the greatest number of characters that a tree can match. -/
def Node.width : Node → Nat × Nat
  | .literal _ | .any | .set _ _ => (1, 1)
  | .anchor _ | .look _ _ _ => (0, 0)
  | .sequence items => Node.widthAll items
  | .choice branches =>
    match Node.widthAny branches with
    | some (least, most) => (least, most)
    | none => (0, 0)
  | .repetition _ least most body =>
    let (low, high) := body.width
    (min unbounded (low * least),
      match most with
      | some n => min unbounded (high * n)
      | none => if high = 0 then 0 else unbounded)
  | .capture _ body | .flagged _ _ body | .atomic body => body.width
  | .backref _ least most => (least, most)
  | .conditional _ yes no =>
    let (low, high) := yes.width
    let (low2, high2) := no.width
    (min low low2, max high high2)

/-- The widths of trees one after the other. -/
def Node.widthAll : List Node → Nat × Nat
  | [] => (0, 0)
  | item :: rest =>
    let (low, high) := item.width
    let (low2, high2) := Node.widthAll rest
    (min unbounded (low + low2), min unbounded (high + high2))

/-- The widths of alternatives. -/
def Node.widthAny : List Node → Option (Nat × Nat)
  | [] => none
  | branch :: rest =>
    let (low, high) := branch.width
    match Node.widthAny rest with
    | none => some (low, high)
    | some (low2, high2) => some (min low low2, max high high2)

end

/-- A pattern that was read, with the flags that hold throughout. -/
structure Compiled where
  /-- The tree. -/
  node : Node
  /-- The flags outside of groups that change them. -/
  flags : Flags

end RankingEval.Pattern
