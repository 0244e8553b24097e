/-
# Distances

The distance of two grids of one shape is a number. Grids of different shapes have no distance, which is
a value of its own. Three distances are special, and whether a distance is one of them is decided by
equality with a mark and not by its size.
-/

import RankingEval.Distance.Grid
import RankingEval.Number.BlockedSum
import RankingEval.Text.Case

namespace RankingEval

open RankingEval.Number

/-- A distance. -/
inductive Distance (α : Type) where
  /-- A number. -/
  | value (x : α)
  /-- The distance of what cannot be compared. -/
  | undefined
deriving DecidableEq, Repr

namespace Distance

/-- Numbers in which distances are measured. -/
class Measured (α : Type) extends Coordinate α where
  /-- The absolute value. -/
  magnitude : α → α
  /-- The square root. -/
  root : α → α

/-- Doubles; the root is correctly rounded. -/
instance : Measured Float where
  magnitude x := x.abs
  root x := x.sqrt

/-- The ways to measure distance. -/
inductive Metric where
  /-- The length of the straight way. -/
  | euclidean
  /-- The length of the way along the axes. -/
  | manhattan
deriving DecidableEq, Repr

namespace Metric

/-- The name of a metric. -/
def name : Metric → String
  | euclidean => "euclidean"
  | manhattan => "manhattan"

/-- The metric of a name in any case. -/
def ofName? (tag : String) : Option Metric :=
  [euclidean, manhattan].find? fun m => m.name == Text.lowerText tag

/-- The metric that a datum names. -/
def ofDatum : Datum → Except Failure Metric
  | .text tag =>
    match ofName? tag with
    | some m => .ok m
    | none => .error (.unknownDistance tag)
  | _ => .error .unsupported

variable {α : Type} [Measured α]

/-- The differences of the cells of two grids. -/
def differences (a b : Grid α) : List α := List.zipWith (· - ·) a.cells b.cells

/-- The length of the differences of two grids. -/
def length : Metric → List α → α
  | euclidean, ds => Measured.root (0 + leftSum (ds.map fun d => d * d))
  | manhattan, ds => blockedSum (ds.map Measured.magnitude)

/-- The distance of two grids. -/
def between (m : Metric) (a b : Grid α) : Distance α :=
  if a.shape = b.shape then .value (m.length (differences a b)) else .undefined

/-- The distance of what two data stand for. -/
def ofData (m : Metric) (a b : Datum) : Except Failure (Distance Float) := do
  let a ← Grid.ofDatum a
  let b ← Grid.ofDatum b
  return m.between a b

/-- The distance of two entries of a database, looked up by their identifiers. -/
def ofEntries (m : Metric) (find : Datum → Except Failure Datum) (first second : Datum) :
    Except Failure (Distance Float) := do
  let a ← find first
  let b ← find second
  m.ofData a b

end Metric

/-- The distances that are special. -/
structure Marks (α : Type) where
  /-- The distance of what is equal. -/
  null : Distance α
  /-- The distance beyond all others. -/
  infinite : Distance α
  /-- The distance of what cannot be compared. -/
  undefined : Distance α

/-- The marks that hold unless others are given. -/
def Marks.standard : Marks Datum := ⟨.value (.float 0.0), .value (.float Number.infinity), .undefined⟩

/-- Equality of distances, by an equality of numbers. -/
def equal {α : Type} (same : α → α → Bool) : Distance α → Distance α → Bool
  | value x, value y => same x y
  | undefined, undefined => true
  | _, _ => false

/-- What the distance of what cannot be compared is called. -/
def undefinedName : String := "UNDEFINED_DISTANCE"

end Distance

end RankingEval
