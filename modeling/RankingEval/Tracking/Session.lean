/-
# Sessions with the tracking service

A session chooses an experiment, starts runs one at a time, and notes parameters, metrics, texts and
tags. To note something is never worth a failure: a refusal is only reported. To start or end a run is.
-/

import RankingEval.World

namespace RankingEval.Tracking

open RankingEval.Running

/-- Makes a call, which the service may refuse. -/
def call (c : Call) : Running Unit := do
  let refusal := (← get).service.refusal? c
  modify fun w => { w with service := w.service.noting c }
  match refusal with
  | some reason => throw (.trackingRefused reason)
  | none => return ()

/-- The directory that keeps the runs where no service is named. -/
def localDirectory : String := "mlflow"

/-- The address of the service: the one that is given, or a directory that is made for it. -/
def address (uri : Datum) : Running Datum := do
  match uri with
  | .missing =>
    changeFiles fun t => t.makeDirectory [localDirectory]
    return .text ("file://" ++ (← get).files.home ++ "/" ++ localDirectory)
  | _ => return uri

/-- Looks an experiment up, and makes it if there is none. -/
def findExperiment (name : Datum) : Running Datum := do
  call (.getExperiment name)
  match (← get).service.experiment? name with
  | some id =>
    report .info .tracking ("Using existing experiment: " ++ name.asText ++ " (ID: " ++ id.asText ++ ")")
    return id
  | none =>
    call (.createExperiment name)
    let id ← modifyGet fun w =>
      let (service, id) := w.service.withExperiment name
      (id, { w with service })
    report .info .tracking ("Created new experiment: " ++ name.asText ++ " (ID: " ++ id.asText ++ ")")
    return id

/-- Chooses the service and the experiment, and gives the identifier of the experiment. -/
def connect (experiment uri : Datum) : Running Datum := do
  let uri ← address uri
  call (.setUri uri)
  report .info .tracking ("MLflow tracking URI: " ++ uri.asText)
  let id ←
    try findExperiment experiment
    catch failure =>
      report .error .tracking ("Error setting up experiment: " ++ failure.logged)
      throw failure
  call (.setExperiment experiment)
  return id

/-- Changes the run of the session. -/
def setRun (run : Option String) : Running Unit :=
  modify fun w => { w with session := w.session.map fun s => { s with run } }

/-- Ends the active run, if there is one. -/
def endRun (status : Datum) : Running Unit := do
  match (← get).session with
  | some ⟨_, _, some run⟩ =>
    call (.endRun status)
    report .info .tracking ("Ended MLflow run: " ++ run ++ " with status " ++ status.asText)
    setRun none
  | _ => return ()

/-- The status of a run that ended well. -/
def finished : Datum := .text "FINISHED"

/-- The status of a run that ended in a failure. -/
def failed : Datum := .text "FAILED"

/-- Asks the service for a run. -/
def requestRun (runName experiment : Datum) : Running String := do
  call (.startRun runName experiment)
  let run ← modifyGet fun w =>
    let (service, run) := w.service.withRun
    (run, { w with service })
  report .info .tracking ("Started MLflow run: " ++ run)
  return run

/-- Starts a run in the session; an active run is ended before. -/
def startRun : Running (Option String) := do
  match (← get).session with
  | none => return none
  | some session =>
    if session.run.isSome then
      report .warning .tracking "Run already active. Ending previous run."
      endRun finished
    let run ← requestRun session.runName session.experiment
    setRun (some run)
    return some run

/-- Opens a session with a run. If that fails, the session before stays. -/
def openSession (experiment runName uri : Datum) : Running Datum := do
  let id ← connect experiment uri
  let run ← requestRun runName id
  modify fun w => { w with session := some ⟨runName, id, some run⟩ }
  return id

/-- Makes a call that notes something: reports what was noted, or that it was refused. -/
def note (c : Call) (what done : String) : Running Unit :=
  try
    call c
    report .debug .tracking done
  catch failure =>
    report .error .tracking ("Error " ++ what ++ ": " ++ failure.logged)

/-- Notes parameters. -/
def logParams (fields : Fields) : Running Unit :=
  note (.logParams fields) "logging parameters" ("Logged " ++ toString fields.length ++ " parameters")

/-- Notes metrics at a step. -/
def logMetrics (fields : Fields) (step : Datum) : Running Unit :=
  note (.logMetrics fields step) "logging metrics"
    ("Logged " ++ toString fields.length ++ " metrics at step " ++ step.asText)

/-- Keeps a text. -/
def logText (text : String) (file : Datum) : Running Unit :=
  note (.logText text file) "logging text" ("Logged text to " ++ file.asText)

/-- Tags the run. -/
def setTags (fields : Fields) : Running Unit :=
  note (.setTags fields) "setting tags" ("Set " ++ toString fields.length ++ " tags")

/-- The character may stand in the key of a metric. -/
def isKeyChar (c : Char) : Bool :=
  c.isAlphanum || c == '_' || c == '-' || c == '.' || c == '/' || c == ' '

/-- The key under which the area of a ranking is noted. -/
def metricKey (name : String) : String := "pr_auc_" ++ name.map fun c => if isKeyChar c then c else '_'

/-- The areas of some rankings as metrics; of several areas with one key the last is noted. -/
def areaMetrics (areas : List (String × Float)) : Fields :=
  areas.foldl (fun fields (name, area) => putName fields (metricKey name) (.float area)) []

/-- The file in which the curves are kept. -/
def curvesFile : Datum := .text "pr_curves.txt"

/-- Notes the areas of all results, and keeps their text. -/
def logCurves (file : Datum) : Running Unit := do
  let areas ← evaluating Evaluation.summary
  logMetrics (areaMetrics areas) .missing
  logText (← evaluating Evaluation.text) file

/-- Ends the run of a session in which a block of work has ended, well or in a failure. -/
def close (well : Bool) : Running Unit := endRun (if well then finished else failed)

/-- Does some work in a session that is opened before and whose run is ended afterwards. -/
def within (experiment uri : Datum) (work : Running Unit) : Running Unit := do
  let _ ← openSession experiment .missing uri
  try work
  catch failure =>
    close false
    throw failure
  close true

end RankingEval.Tracking
