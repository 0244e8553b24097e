/-
# Sets of code points

A set of characters is a table of closed ranges, in ascending order. This module holds the table type
and its membership test; the tables themselves stand with the property that they describe.
-/

namespace RankingEval.Text

/-- Closed ranges of code points, ascending and apart. -/
abbrev CodePoints := Array (Nat × Nat)

/-- Binary search for the range that holds `n`, among the ranges from `low` up to `high`. -/
def CodePoints.search (table : CodePoints) (n low high : Nat) : Bool :=
  if _ : low < high then
    let middle := (low + high) / 2
    match table[middle]? with
    | none => false
    | some (first, last) =>
      if n < first then table.search n low middle
      else if last < n then table.search n (middle + 1) high
      else true
  else false
termination_by high - low
decreasing_by all_goals omega

/-- The code point lies in one of the ranges. -/
def CodePoints.holds (table : CodePoints) (n : Nat) : Bool := table.search n 0 table.size

end RankingEval.Text
