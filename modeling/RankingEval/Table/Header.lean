/-
# Names of columns

The names in a header made unique. A column without a name is named by its position. A name that comes
again is told apart by a number; named columns come first in this, so that they keep their names.
-/

import RankingEval.Named

namespace RankingEval.Header

/-- The name of a column without one. -/
def placeholder (position : Nat) : String := "Unnamed: " ++ toString position

/-- How often a name has been given. -/
def given (counts : List (String × Nat)) (name : String) : Nat := (counts.lookup name).getD 0

/-- The first `n`, from some number on, for which `name.n` is not taken. The bound is on the number of
attempts. -/
def freeNumber (taken : List String) (name : String) : Nat → Nat → Nat
  | 0, n => n
  | bound + 1, n =>
    if taken.contains (name ++ "." ++ toString n) then freeNumber taken name bound (n + 1) else n

/-- Makes the name at a position unique among the names so far. -/
def uniqueAt (state : List String × List (String × Nat)) (position : Nat) :
    List String × List (String × Nat) :=
  let (names, counts) := state
  let name := names.getD position ""
  match given counts name with
  | 0 => (names, putName counts name 1)
  | seen + 1 =>
    let n := freeNumber names name names.length (seen + 1)
    let unique := name ++ "." ++ toString n
    (names.set position unique, putName (putName counts name (n + 1)) unique 1)

/-- The names of a header, made unique. -/
def unique (header : List String) : List String :=
  let positions := List.range header.length
  let names := (header.zip positions).map fun (name, i) => if name.isEmpty then placeholder i else name
  let isNamed (i : Nat) : Bool := header.getD i "" != ""
  let order := positions.filter isNamed ++ positions.filter fun i => !isNamed i
  (order.foldl uniqueAt (names, [])).1

end RankingEval.Header
