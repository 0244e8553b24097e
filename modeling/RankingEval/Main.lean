/-
# The command line

The outermost layer: it hands files and arguments to the program, and writes what the program leaves
behind. There is no tracking service behind it; calls to one are answered as if there were.
-/

import RankingEval.Console.Program

namespace RankingEval.Main

/-- The tree with the file of a path, if it can be read. -/
def readInto (tree : Files.Tree) (path : Path) : IO Files.Tree := do
  try
    let s ← IO.FS.readFile path.toString
    return tree.withFile path (.text s)
  catch _ => return tree

/-- The files that a request needs: the configuration, and the table that it names. -/
def readFiles (config : Option String) : IO Files.Tree := do
  let home ← IO.currentDir
  let path := Path.ofString (config.getD Program.usualConfig)
  let tree ← readInto ⟨home.toString, []⟩ path
  let table : Except Failure Path := do
    let settings ← Run.settings (← Document.load tree path)
    return (← Schema.ofDatum (settings.get "data") Schema.defaultPath).dataPath
  match table with
  | .ok table => readInto tree table
  | .error _ => return tree

/-- Writes the text files that are new or changed. -/
def writeFiles (before after : Files.Tree) : IO Unit := do
  for (place, node) in after.nodes do
    match node, before.node? place with
    | .text s, some (.text old) => if s != old then IO.FS.writeFile ("/".intercalate place) s
    | .text s, _ =>
      if 1 < place.length then IO.FS.createDirAll ("/".intercalate place.dropLast)
      IO.FS.writeFile ("/".intercalate place) s
    | _, _ => pure ()

end RankingEval.Main

/-- Runs the program with the arguments of the command line. -/
def main (arguments : List String) : IO UInt32 := do
  let config := match RankingEval.Arguments.parse arguments with
    | .ok (.run config _) => config
    | _ => none
  let files ← RankingEval.Main.readFiles config
  let address ← IO.getEnv "MLFLOW_TRACKING_URI"
  match RankingEval.Program.start arguments (RankingEval.Program.argument address) { files } with
  | .help =>
    IO.print RankingEval.Arguments.help
    return 0
  | .refused reason =>
    IO.eprint (RankingEval.Arguments.refusal reason)
    return 2
  | .done trace =>
    RankingEval.Main.writeFiles files trace.world.files
    IO.eprint trace.console.shown
    match trace.outcome with
    | .ok _ => return 0
    | .error failure =>
      IO.eprintln failure.logged
      return 1
