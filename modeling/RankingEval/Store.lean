/-
# The store of results

The store pairs every evaluated ranking with a result. A ranking that is added again keeps its place and
takes the new result. What a result is, the store does not ask.
-/

import RankingEval.Named
import RankingEval.Ranking.Basic

namespace RankingEval

/-- Rankings with their results, in the order in which the rankings were first added. -/
structure Store (γ : Type) where
  /-- The entries; no two of them have rankings with one handle. -/
  entries : List (Ranking × γ)

namespace Store

variable {γ : Type}

/-- A store without entries. -/
def empty : Store γ := ⟨[]⟩

/-- The number of entries. -/
def size (s : Store γ) : Nat := s.entries.length

/-- The result of a ranking. -/
def get? (s : Store γ) (r : Ranking) : Option γ :=
  (s.entries.find? fun entry => entry.1.handle == r.handle).map (·.2)

/-- The ranking has a result. -/
def contains (s : Store γ) (r : Ranking) : Bool := s.entries.any fun entry => entry.1.handle == r.handle

/-- Gives a ranking a result. -/
def add (s : Store γ) (r : Ranking) (result : γ) : Store γ :=
  if s.contains r then
    ⟨s.entries.map fun entry => if entry.1.handle == r.handle then (r, result) else entry⟩
  else ⟨s.entries ++ [(r, result)]⟩

/-- What is reported when a ranking is given a result: that it had one before. -/
def addReport (s : Store γ) (r : Ranking) : Journal :=
  if s.contains r then
    [⟨.warning, .results, "Replacing existing curve for ranking '" ++ r.name ++ "'"⟩]
  else []

end Store

end RankingEval
