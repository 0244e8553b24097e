/-
# The world of a run

Everything that a run from a configuration works on: the evaluation, the files, the tracking service and
the session with it. A computation may fail, and what it did before stays done. What only evaluates
leaves the rest of the world alone.
-/

import RankingEval.Evaluation.Basic
import RankingEval.Files.Tree
import RankingEval.Tracking.Service

namespace RankingEval

namespace Tracking

/-- A session with the tracking service: an experiment, and the run that is active. -/
structure Session where
  /-- The name that runs are given, if any. -/
  runName : Datum
  /-- The experiment. -/
  experiment : Datum
  /-- The identifier of the active run. -/
  run : Option String

end Tracking

/-- What a run works on. -/
structure World where
  /-- The curves, the results and the journal. -/
  evaluation : Evaluation.State := {}
  /-- The files. -/
  files : Files.Tree
  /-- The tracking service. -/
  service : Tracking.Service := {}
  /-- The session with the tracking service. -/
  session : Option Tracking.Session := none

/-- A computation on the world, which may fail. -/
abbrev Running := ExceptT Failure (StateM World)

namespace Running

/-- A computation that only evaluates. -/
def evaluating {α : Type} (act : Evaluating α) : Running α :=
  ExceptT.mk fun w =>
    let (outcome, evaluation) := act.run.run w.evaluation
    (outcome, { w with evaluation })

/-- Writes an entry into the journal. -/
def report (level : Level) (source : Source) (text : String) : Running Unit :=
  evaluating (Evaluation.report [⟨level, source, text⟩])

/-- Changes the files, or fails and leaves them as they are. -/
def changeFiles (change : Files.Tree → Except Failure Files.Tree) : Running Unit := do
  let files ← change (← get).files
  modify fun w => { w with files }

end Running

end RankingEval
