/-
# The order of data

Numbers are ordered by value, texts by their code points, and sequences by the first place where they
differ. Data of different kinds are in no order.
-/

import RankingEval.Datum

namespace RankingEval

/-- How one key stands to another, if they can be compared. -/
def Key.compare? : Key → Key → Option Ordering
  | .number a, .number b => some (compareOfLessAndEq a b)
  | .number _, .infinite negative => some (if negative then .gt else .lt)
  | .infinite negative, .number _ => some (if negative then .lt else .gt)
  | .infinite a, .infinite b => some (if a == b then .eq else if a then .lt else .gt)
  | .text s, .text t => some (compareOfLessAndEq s t)
  | _, _ => none

mutual

/-- How one datum stands to another, if they can be compared. -/
def Datum.compare? : Datum → Datum → Option Ordering
  | .list xs, .list ys => Datum.compareAll? xs ys
  | a, b =>
    match a.key?, b.key? with
    | some k, some l => k.compare? l
    | _, _ => none

/-- How one sequence stands to another: by the first items that differ, else by length. -/
def Datum.compareAll? : List Datum → List Datum → Option Ordering
  | [], [] => some .eq
  | [], _ :: _ => some .lt
  | _ :: _, [] => some .gt
  | x :: xs, y :: ys => if x.same y then Datum.compareAll? xs ys else x.compare? y

end

/-- Every item can be compared with the next one. -/
def comparableInRow : List Datum → Bool
  | x :: y :: rest => (x.compare? y).isSome && comparableInRow (y :: rest)
  | _ => true

end RankingEval
