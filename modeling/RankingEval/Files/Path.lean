/-
# Paths

The name of a file as the way to it: where the way starts, and the steps. Empty steps and steps to where
one is already are dropped; a step up is kept, since the step before it may be a link.
-/

namespace RankingEval

/-- The way to a file or directory. -/
structure Path where
  /-- One slash or two for a way from the top, nothing for one from the working directory. -/
  root : String
  /-- The names on the way. -/
  parts : List String
deriving DecidableEq, Repr

namespace Path

/-- The texts between the slashes of a text. -/
def splitAtSlashes : List Char → List (List Char)
  | [] => [[]]
  | c :: rest =>
    if c == '/' then [] :: splitAtSlashes rest
    else
      match splitAtSlashes rest with
      | part :: parts => (c :: part) :: parts
      | [] => [[c]]

/-- Where a way starts: a path with exactly two slashes in front keeps both. -/
def rootOf (slashes : Nat) : String := if slashes = 0 then "" else if slashes = 2 then "//" else "/"

/-- The path that a text names. -/
def ofString (s : String) : Path :=
  let cs := s.toList
  let steps := (splitAtSlashes cs).filter fun part => !part.isEmpty && part != ['.']
  ⟨rootOf (cs.takeWhile (· == '/')).length, steps.map String.ofList⟩

/-- The path as a text; the working directory is a dot. -/
def toString (p : Path) : String :=
  if p.parts.isEmpty && p.root.isEmpty then "." else p.root ++ "/".intercalate p.parts

/-- The directory that holds the file. -/
def parent (p : Path) : Path := { p with parts := p.parts.dropLast }

/-- The name of the file. -/
def name (p : Path) : String := p.parts.getLast?.getD ""

/-- The part of the name from its last point on; a point at either end of the name starts none. -/
def suffix (p : Path) : String :=
  let (tail, rest) := p.name.toList.reverse.span (· != '.')
  match rest with
  | _ :: _ :: _ => if tail.isEmpty then "" else "." ++ String.ofList tail.reverse
  | _ => ""

end Path

end RankingEval
