/-
# The tracking service

The service that keeps experiments and runs, as far as it is seen from here: the calls made to it, the
experiments it knows, and the number of runs it has started. It may refuse calls of a kind; a refused
call counts as made and changes nothing.
-/

import RankingEval.Datum

namespace RankingEval.Tracking

/-- The kinds of calls. -/
inductive Verb where
  /-- Choose the service. -/
  | setUri
  /-- Look an experiment up. -/
  | getExperiment
  /-- Make an experiment. -/
  | createExperiment
  /-- Choose an experiment. -/
  | setExperiment
  /-- Start a run. -/
  | startRun
  /-- End the run. -/
  | endRun
  /-- Note parameters. -/
  | logParams
  /-- Note metrics. -/
  | logMetrics
  /-- Keep a text. -/
  | logText
  /-- Tag the run. -/
  | setTags
deriving DecidableEq, Repr

/-- Values under names, as they are sent to the service. -/
abbrev Fields := List (String × Datum)

/-- A call to the service. -/
inductive Call where
  /-- Choose the service at an address. -/
  | setUri (uri : Datum)
  /-- Look an experiment up by its name. -/
  | getExperiment (name : Datum)
  /-- Make an experiment. -/
  | createExperiment (name : Datum)
  /-- Choose an experiment. -/
  | setExperiment (name : Datum)
  /-- Start a run of an experiment. -/
  | startRun (runName experiment : Datum)
  /-- End the run with a status. -/
  | endRun (status : Datum)
  /-- Note parameters. -/
  | logParams (fields : Fields)
  /-- Note metrics at a step. -/
  | logMetrics (fields : Fields) (step : Datum)
  /-- Keep a text under a file name. -/
  | logText (text : String) (file : Datum)
  /-- Tag the run. -/
  | setTags (fields : Fields)

/-- The kind of a call. -/
def Call.verb : Call → Verb
  | setUri _ => .setUri
  | getExperiment _ => .getExperiment
  | createExperiment _ => .createExperiment
  | setExperiment _ => .setExperiment
  | startRun .. => .startRun
  | endRun _ => .endRun
  | logParams _ => .logParams
  | logMetrics .. => .logMetrics
  | logText .. => .logText
  | setTags _ => .setTags

/-- The service as it is seen from here. -/
structure Service where
  /-- The kinds of calls that it refuses, and with which words. -/
  refusals : List (Verb × String) := []
  /-- The experiments by name, with their identifiers. -/
  experiments : List (Datum × Datum) := []
  /-- The number of runs that it has started. -/
  started : Nat := 0
  /-- The calls that were made, the oldest first. -/
  calls : List Call := []

namespace Service

/-- The words with which the service refuses a call. -/
def refusal? (s : Service) (c : Call) : Option String := s.refusals.lookup c.verb

/-- The service after a call, as far as the call itself is concerned. -/
def noting (s : Service) (c : Call) : Service := { s with calls := s.calls ++ [c] }

/-- The identifier of an experiment. -/
def experiment? (s : Service) (name : Datum) : Option Datum :=
  (s.experiments.find? fun entry => entry.1.sameScalar name).map (·.2)

/-- The service with one more experiment, which gets the next number, and its identifier. -/
def withExperiment (s : Service) (name : Datum) : Service × Datum :=
  let id : Datum := .text (toString (s.experiments.length + 1))
  ({ s with experiments := s.experiments ++ [(name, id)] }, id)

/-- The service after it has started one more run, and the identifier of the run. -/
def withRun (s : Service) : Service × String :=
  ({ s with started := s.started + 1 }, "run-" ++ toString (s.started + 1))

end Service

end RankingEval.Tracking
