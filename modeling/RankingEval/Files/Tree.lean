/-
# Trees of files

The files below a working directory, and those that paths from the top lead to. A path is followed step
by step: every step but the last has to lead to a directory, and a step up leads back to the directory
before. What lies directly above the working directory is not known.
-/

import RankingEval.Files.Path
import RankingEval.Table.Basic

namespace RankingEval.Files

/-- What stands at a place. -/
inductive Node where
  /-- A directory. -/
  | directory
  /-- A file of text. -/
  | text (s : String)
  /-- A file of columns. -/
  | table (t : Table)

/-- The files that are known. -/
structure Tree where
  /-- The absolute path of the working directory. -/
  home : String
  /-- The places that are taken, each by the names on the way to it from the working directory, or from
  the top, whose name is then the first. -/
  nodes : List (List String × Node)

/-- The place where a path starts. -/
def startOf (p : Path) : List String := if p.root.isEmpty then [] else [p.root]

/-- The place is a start of paths. -/
def isStart (place : List String) : Bool := [[], ["/"], ["//"]].contains place

/-- The place above another one. From the top one gets no higher. -/
def above (place : List String) : Except Failure (List String) :=
  if place.isEmpty then .error .fileMissing
  else if isStart place then .ok place
  else .ok place.dropLast

namespace Tree

/-- What stands at a place; where paths start, there is always a directory. -/
def node? (t : Tree) (place : List String) : Option Node :=
  if isStart place then some .directory else t.nodes.lookup place

/-- There is a directory at a place. -/
def hasDirectory (t : Tree) (place : List String) : Bool :=
  match t.node? place with
  | some .directory => true
  | _ => false

/-- The place to which some steps lead from another place. -/
def follow (t : Tree) (place : List String) : List String → Except Failure (List String)
  | [] => .ok place
  | step :: rest =>
    match t.node? place with
    | none => .error .fileMissing
    | some .directory => do t.follow (← if step == ".." then above place else .ok (place ++ [step])) rest
    | some _ => .error .notADirectory

/-- The place that a path leads to. -/
def place (t : Tree) (p : Path) : Except Failure (List String) := t.follow (startOf p) p.parts

/-- What stands at a path. -/
def find (t : Tree) (p : Path) : Except Failure Node := do
  match t.node? (← t.place p) with
  | some node => return node
  | none => throw .fileMissing

/-- Something stands at a path. -/
def reaches (t : Tree) (p : Path) : Bool := (t.find p).isOk

/-- Puts a node at a place. -/
def put (t : Tree) (place : List String) (node : Node) : Tree :=
  { t with nodes := t.nodes.filter (fun entry => entry.1 != place) ++ [(place, node)] }

/-- Makes a directory at a place unless there is one; a file may not stand there. -/
def makeDirectory (t : Tree) (place : List String) : Except Failure Tree :=
  match t.node? place with
  | some .directory => .ok t
  | some _ => .error .fileInTheWay
  | none => .ok (t.put place .directory)

/-- Makes the directories on a way, from the first on. -/
def makeWay (t : Tree) (place : List String) : List String → Except Failure Tree
  | [] => .ok t
  | step :: rest => do
    if !t.hasDirectory place then throw .notADirectory
    if step == ".." then t.makeWay (← above place) rest
    else
      let next := place ++ [step]
      if rest.isEmpty then t.makeDirectory next
      else if (t.node? next).isSome then t.makeWay next rest
      else (t.put next .directory).makeWay next rest

/-- Makes the directory of a path and all directories on the way to it. -/
def makeDirectories (t : Tree) (p : Path) : Except Failure Tree := t.makeWay (startOf p) p.parts

/-- Writes a text to the file of a path. -/
def write (t : Tree) (p : Path) (s : String) : Except Failure Tree := do
  let place ← t.place p
  match t.node? place with
  | some .directory => throw .isDirectory
  | _ => return t.put place (.text s)

/-- The tree with a file at the end of a path, and the directories on the way to it. -/
def withFile (t : Tree) (p : Path) (node : Node) : Tree :=
  let place := startOf p ++ p.parts
  let ways := ((List.range place.length).drop 1).map place.take
  let rooted := ways.foldl (fun t way => if (t.node? way).isSome then t else t.put way .directory) t
  rooted.put place node

end Tree

end RankingEval.Files
