/-
# Where a match may begin

A search looks only at the characters with which the pattern can begin, where it begins with a set. Inside
of a group with flags of its own the set is tried under those flags, but the search looks for it with the
classes that hold throughout. Where the two readings of a class differ, both have to hold.
-/

import RankingEval.Pattern.Search

namespace RankingEval.Pattern

open RankingEval.Text

/-- Some other character has the same lower-case form. -/
def Flags.cased (f : Flags) (code : Nat) : Bool :=
  if f.ascii then Char.isAlpha (Char.ofNat code)
  else lower code != code || (alike code).length != 1
    || (decide (0 < code) && rangeLowersTo 0 (code - 1) code) || rangeLowersTo (code + 1) 0x10FFFF code

/-- Case makes a difference to what belongs to a member. -/
def Member.isCased (f : Flags) : Member → Bool
  | .one code => f.cased code
  | .range first last => 0xFFFF < last || (List.range' first (last + 1 - first)).any f.cased
  | .named _ _ => false

/-- A set of characters: its members, or what is outside of them. -/
structure CharSet where
  /-- The set holds what is no member. -/
  negated : Bool
  /-- The members. -/
  members : List Member
deriving DecidableEq

/-- The character is in the set. -/
def CharSet.holds (f : Flags) (s : CharSet) (x : Char) : Bool :=
  (s.members.any fun m => m.holds f x) != s.negated

/-- The set names a class, and its other members do not depend on case. -/
def CharSet.isLeading (f : Flags) (s : CharSet) : Bool :=
  (s.members.any fun | .named _ _ => true | _ => false)
    && !(f.ignoreCase && s.members.any fun m => m.isCased f)

mutual

/-- The set of characters that a tree is, if it takes one character and does nothing else. -/
def Node.charSet? : Node → Option CharSet
  | .literal code => some ⟨false, [.one code]⟩
  | .set negated members => some ⟨negated, members⟩
  | .sequence [item] => item.charSet?
  | .flagged on off body => if on.isNone && off.isNone then body.charSet? else none
  | .choice branches => (Node.joinedMembers? branches).map fun members => ⟨false, members⟩
  | _ => none

/-- The members of several sets together, none of which may be negated. -/
def Node.joinedMembers? : List Node → Option (List Member)
  | [] => some []
  | branch :: rest =>
    match branch.charSet? with
    | some ⟨false, members⟩ => (Node.joinedMembers? rest).map (members ++ ·)
    | _ => none

end

mutual

/-- The set that stands in front of a tree, whatever follows it. -/
def Node.frontSet? : Node → Option CharSet
  | .set negated members => some ⟨negated, members⟩
  | .sequence (item :: _) => item.frontSet?
  | .flagged on off body => if on.isNone && off.isNone then body.frontSet? else none
  | .choice branches => Node.sharedFront? branches
  | _ => none

/-- The set that stands in front of each of several trees. -/
def Node.sharedFront? : List Node → Option CharSet
  | [] => none
  | [branch] => branch.frontSet?
  | branch :: rest =>
    match branch.frontSet?, Node.sharedFront? rest with
    | some s, some t => if s = t then some s else none
    | _, _ => none

end

/-- The set with which a match has to begin, if the tree begins with one that names a class. -/
def Node.leadingSet? (f : Flags) : Node → Option CharSet
  | .capture _ body => body.leadingSet? f
  | .flagged on off body => body.leadingSet? (f.within on off)
  | .sequence (item :: _) => item.leadingSet? f
  | node => (node.charSet? <|> node.frontSet?).filter fun s => s.isLeading f

/-- The pattern matches somewhere in the text. -/
def Compiled.occursIn (p : Compiled) (s : String) : Bool :=
  let text := s.toList.toArray
  let found (i : Nat) : Bool := (p.node.run text p.flags some ⟨i, []⟩).isSome
  match p.node.leadingSet? p.flags with
  | some lead =>
    let outside := { p.flags with ignoreCase := false }
    (List.range text.size).any fun i => (text[i]?.any fun c => lead.holds outside c) && found i
  | none => (List.range (text.size + 1)).any found

end RankingEval.Pattern
