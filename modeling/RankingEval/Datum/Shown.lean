/-
# Data as text

A datum is shown in two ways. Inside a list, a mapping or a message a text stands in quotes; on its own
it stands as it is. Every other datum looks the same in both places.
-/

import RankingEval.Datum
import RankingEval.Text.Quoted

namespace RankingEval.Datum

/-- Texts between brackets, with a comma and a space between neighbours. -/
private def bracketed (first last : String) (items : List String) : String :=
  first ++ ", ".intercalate items ++ last

mutual

/-- The datum as it stands inside a list, a mapping or a message. -/
def shown : Datum → String
  | missing => "None"
  | bool b => if b then "True" else "False"
  | int n => toString n
  | float x => Number.text x
  | text s => Text.quoted s
  | list items => bracketed "[" "]" (shownAll items)
  | map entries => bracketed "\x7b" "\x7d" (shownEntries entries)

/-- The items of a sequence, shown. -/
def shownAll : List Datum → List String
  | [] => []
  | d :: rest => shown d :: shownAll rest

/-- The entries of a mapping, shown. -/
def shownEntries : List (Datum × Datum) → List String
  | [] => []
  | (k, v) :: rest => (shown k ++ ": " ++ shown v) :: shownEntries rest

end

/-- The datum on its own, as a text. -/
def asText : Datum → String
  | text s => s
  | d => d.shown

end RankingEval.Datum
