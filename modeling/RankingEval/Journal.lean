/-
# The journal

What an evaluation reports while it runs: entries with a level, the part of the library that wrote
them, and a text.
-/

namespace RankingEval

/-- How much an entry matters. -/
inductive Level where
  /-- Of interest only to someone who looks for a fault. -/
  | debug
  /-- Progress as expected. -/
  | info
  /-- Progress, though not as expected. -/
  | warning
  /-- Something failed. -/
  | error
deriving DecidableEq, Repr

namespace Level

/-- The name of a level. -/
def name : Level → String
  | debug => "DEBUG"
  | info => "INFO"
  | warning => "WARNING"
  | error => "ERROR"

/-- The rank of a level. -/
def rank : Level → Nat
  | debug => 10
  | info => 20
  | warning => 30
  | error => 40

end Level

/-- The parts of the library that write entries. -/
inductive Source where
  /-- Curves and their areas. -/
  | curve
  /-- The builder of curves and the evaluation of rankings. -/
  | evaluation
  /-- The store of results. -/
  | results
  /-- The loading of tables. -/
  | loading
  /-- The tracking of runs. -/
  | tracking
  /-- The run from a configuration. -/
  | run
deriving DecidableEq, Repr

/-- The name under which a part writes. -/
def Source.name : Source → String
  | .curve => "outlier_eval.evaluation.curve"
  | .evaluation => "outlier_eval.evaluation.precision_recall"
  | .results => "outlier_eval.evaluation.results"
  | .loading => "outlier_eval.utils.data_loading"
  | .tracking => "outlier_eval.utils.mlflow_logger"
  | .run => "outlier_eval.scripts.evaluate_rankings"

/-- One entry of the journal. -/
structure Entry where
  /-- How much it matters. -/
  level : Level
  /-- Who wrote it. -/
  source : Source
  /-- What it says. -/
  text : String
deriving DecidableEq, Repr

/-- Entries, the oldest first. -/
abbrev Journal := List Entry

end RankingEval
