/-
# The program

The program reads its arguments and its configuration, sets up the console, and runs what the
configuration describes. A run that fails is reported before the failure is passed on.
-/

import RankingEval.Console.Arguments
import RankingEval.Console.Basic
import RankingEval.Document.Value
import RankingEval.Run

namespace RankingEval.Program

/-- What the program leaves behind once it has read its configuration. -/
structure Trace where
  /-- Whether it failed, and why. -/
  outcome : Except Failure Unit
  /-- The console. -/
  console : Console
  /-- The world. -/
  world : World

/-- How the program ends. -/
inductive Ending where
  /-- It shows its help. -/
  | help
  /-- It refuses its arguments. -/
  | refused (reason : String)
  /-- It has done its work, or failed in it. -/
  | done (trace : Trace)

/-- The configuration file if none is given. -/
def usualConfig : String := "configs/evaluation.yaml"

/-- The datum of an argument that may be absent. -/
def argument (given : Option String) : Datum := (given.map Datum.text).getD .missing

/-- Runs what a configuration describes, and reports a failure. -/
def run (config output address : Datum) : Running Unit :=
  try Run.fromConfig config output address
  catch failure =>
    Running.report .error .run ("Evaluation failed: " ++ failure.logged)
    throw failure

/-- The level and the layout that a configuration sets for the console. -/
def consoleSettings (config : Datum) : Except Failure (Datum × Datum) := do
  let logging ← Run.optionalSettings ((← Run.settings config).get "logging")
  return ((logging.get? "level").getD Console.usualLevel, logging.get "format")

/-- Does the work: loads the configuration, sets up the console and runs. -/
def work (config output : Option String) (address : Datum) (w : World) : Trace :=
  let console : Console := {}
  let prepared : Except Failure (Datum × Except Failure Unit × Console) := do
    let settings ← Document.load w.files (.ofString (config.getD usualConfig))
    let (level, layout) ← consoleSettings settings
    return (settings, console.configure level layout)
  match prepared with
  | .error failure => ⟨.error failure, console, w⟩
  | .ok (_, .error failure, console) => ⟨.error failure, console, w⟩
  | .ok (settings, .ok _, console) =>
    let (outcome, after) := (run settings (argument output) address).run.run w
    let reports := (after.evaluation.journal.drop w.evaluation.journal.length).map Console.Report.ofEntry
    ⟨outcome, reports.foldl Console.emit console, after⟩

/-- What the program does with its arguments. -/
def start (arguments : List String) (address : Datum) (w : World) : Ending :=
  match Arguments.parse arguments with
  | .error reason => .refused reason
  | .ok .help => .help
  | .ok (.run config output) => .done (work config output address w)

/-- The entries of a journal that the console shows. -/
def shownEntries (t : Trace) : Journal :=
  t.world.evaluation.journal.filter fun e => t.console.shows e.level.rank

end RankingEval.Program
