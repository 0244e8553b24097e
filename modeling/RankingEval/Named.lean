/-
# Named values

Values under names, in the order in which the names first came.
-/

namespace RankingEval

/-- Sets a name to a value; a name that comes again keeps its place. -/
def putName {β : Type} (entries : List (String × β)) (name : String) (value : β) : List (String × β) :=
  if entries.any (·.1 == name) then
    entries.map fun entry => if entry.1 == name then (name, value) else entry
  else entries ++ [(name, value)]

end RankingEval
