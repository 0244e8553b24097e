import RankingEval.Distance.Metric
import RankingEval.Main
import RankingEval.Proofs.Number.Rounding
import RankingEval.Ranking.TieBlocks
import RankingEval.Proofs.Number.Laws
import RankingEval.Proofs.Number.WholeNumbers
import RankingEval.Proofs.Curve.Buffer
import RankingEval.Proofs.Curve.Polyline
import RankingEval.Proofs.Ranking.Blocks
import RankingEval.Proofs.Ranking.Evaluation
import RankingEval.Proofs.Curve.Forward
import RankingEval.Proofs.Ranking.WellFormed
import RankingEval.Proofs.Ranking.Sorting
import RankingEval.Proofs.Ranking.RowOrder
import RankingEval.Proofs.Curve.ExactArea
import RankingEval.Proofs.Ranking.ExactArea
import RankingEval.Proofs.Ranking.Places
import RankingEval.Proofs.Ranking.Exchange
import RankingEval.Proofs.Curve.Drift
import RankingEval.Proofs.Ranking.Levels
import RankingEval.Proofs.Ranking.AreaRange
import RankingEval.Proofs.Ranking.Rescaling
import RankingEval.Proofs.Evaluation.Agenda
import RankingEval.Proofs.Ranking.Plot
import RankingEval.Proofs.Store
import RankingEval.Proofs.Evaluation.EachOnce
import RankingEval.Proofs.Evaluation.Readings
import RankingEval.Proofs.Evaluation.Recording
import RankingEval.Proofs.Tracking.Calls
import RankingEval.Proofs.Tracking.Steps
import RankingEval.Proofs.Tracking.Trace
import RankingEval.Proofs.Tracking.Lifecycle
import RankingEval.Proofs.Tracking.Opening
import RankingEval.Proofs.Tracking.Metrics
import RankingEval.Proofs.Curve.Uses
import RankingEval.Proofs.Curve.Canonical
import RankingEval.Proofs.Number.Intervals
import RankingEval.Proofs.Number.NaturalText
import RankingEval.Proofs.Evaluation.TextFormat
import RankingEval.Proofs.Files.Tree
import RankingEval.Proofs.Evaluation.Results
import RankingEval.Proofs.Tracking.Frame
import RankingEval.Proofs.Run.Stages
import RankingEval.Proofs.Run.Effects
import RankingEval.Proofs.Datum.Order
import RankingEval.Proofs.Ranking.Arrangement
import RankingEval.Proofs.Table.Loading
import RankingEval.Proofs.Table.Rankings
import RankingEval.Proofs.Table.Matching
import RankingEval.Proofs.Table.Curves
import RankingEval.Proofs.Evaluation.Misses
import RankingEval.Proofs.Table.LookUps
import RankingEval.Proofs.Table.MatchedSets
import RankingEval.Proofs.Table.LabelForms
import RankingEval.Proofs.Curve.Memory
import RankingEval.Proofs.Curve.Trapezoids
import RankingEval.Proofs.Curve.Similarity
import RankingEval.Proofs.Evaluation.Faithful
import RankingEval.Proofs.Tracking.ToldAreas
import RankingEval.Proofs.Datum.Texts
import RankingEval.Proofs.Table.LabelCounts
import RankingEval.Proofs.Distance.Shapes
import RankingEval.Proofs.Distance.Laws
