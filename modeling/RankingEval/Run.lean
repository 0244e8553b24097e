/-
# Runs

A run evaluates the rankings of a table as a configuration describes it, writes the curves to a file, and
hands them to the tracking service. Files and service are left alone until the curves are there.
-/

import RankingEval.Table.Load
import RankingEval.Tracking.Session

namespace RankingEval.Run

open RankingEval.Running

/-- The settings of a datum that has to be a mapping. -/
def settings : Datum → Except Failure Section
  | .map entries => .ok ⟨entries⟩
  | _ => .error .unsupported

/-- The settings of a datum that has to be a mapping if it is set at all. -/
def optionalSettings (d : Datum) : Except Failure Section := if d.isSet then settings d else .ok ⟨[]⟩

/-- The path that the configuration gives for the text of the curves, unless a path is given. -/
def outputPath (config : Section) (given : Datum) : Except Failure Datum := do
  if given.isSet then return given
  return (← optionalSettings (config.get "output")).get "path"

/-- What a run evaluates: the schema, the pattern of the positive class, and the rankings. -/
structure Subject where
  /-- Where the table is and what its columns mean. -/
  schema : Schema
  /-- The pattern of the positive class. -/
  positives : String
  /-- The number of rankings. -/
  rankingCount : Nat

/-- Evaluates the rankings of the table that the configuration describes. How often each label occurs is
not among the entries, since labels that are equally frequent have no order of their own. -/
def evaluateTable (config : Section) : Running Subject := do
  let schema ← Schema.ofDatum (config.get "data") Schema.defaultPath
  let positives ← positiveClass (config.get "evaluation")
  let (table, entries) ← Table.load (← get).files schema
  evaluating (Evaluation.report entries)
  let (labels, rankings) ← table.rankings schema
  report .info .run ("Evaluating " ++ toString rankings.length ++ " rankings")
  evaluating (Evaluation.evaluate positives labels rankings)
  return ⟨schema, positives, rankings.length⟩

/-- Writes the text of the curves to a file. -/
def writeCurves (path : Datum) : Running Unit := do
  let path ← Schema.pathOf path
  changeFiles fun t => t.makeDirectories path.parent
  let text ← evaluating Evaluation.text
  changeFiles fun t => t.write path text
  report .info .run ("Curves saved to: " ++ path.toString)

/-- The name of the experiment if the configuration gives none. -/
def defaultExperiment : Datum := .text "pr-curve-evaluation"

/-- Hands the curves to the tracking service. -/
def track (config : Section) (address : Datum) (subject : Subject) : Running Unit :=
  let uri := config.get "mlflow_tracking_uri"
  let experiment := (config.get? "experiment_name").getD defaultExperiment
  let positives : Datum := .text subject.positives
  Tracking.within experiment (if uri.isSet then uri else address) do
    Tracking.logParams [("positive_class_name", positives),
      ("data_path", .text subject.schema.dataPath.toString),
      ("n_rankings", .int subject.rankingCount)]
    Tracking.setTags [("positive_class_name", positives)]
    Tracking.logCurves Tracking.curvesFile

/-- Runs what a configuration describes. A path that is given goes before the one in the configuration,
and the address of the service in the configuration before the one that is given. -/
def fromConfig (config output address : Datum) : Running Unit := do
  let config ← settings config
  let subject ← evaluateTable config
  if (← get).evaluation.store.size = 0 then
    report .warning .run "No precision-recall curves were produced"
  else
    let path ← outputPath config output
    if path.isSet then writeCurves path
    if (config.get "use_mlflow").isSet then track config address subject

end RankingEval.Run
