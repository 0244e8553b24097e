/-
# Data of open kind

Configuration sections, table cells and identifiers hold data whose kind is known only when they are
read. `Datum` is that kind, with the questions that every reader asks of it: whether it counts as set,
which number it is, and how it is shown as text.
-/

import RankingEval.Number.Layout
import RankingEval.Text.Printable

namespace RankingEval

/-- A value of open kind. -/
inductive Datum where
  /-- No value. -/
  | missing
  /-- A truth value. -/
  | bool (b : Bool)
  /-- A whole number of any size. -/
  | int (n : Int)
  /-- A double. -/
  | float (x : Float)
  /-- A text. -/
  | text (s : String)
  /-- A sequence. -/
  | list (items : List Datum)
  /-- An ordered mapping. -/
  | map (entries : List (Datum × Datum))
deriving Repr, Inhabited

namespace Datum

/-- The datum counts as set: it is neither missing, false, zero nor empty. -/
def isSet : Datum → Bool
  | missing => false
  | bool b => b
  | int n => n != 0
  | float x => x != 0.0
  | text s => !s.isEmpty
  | list items => !items.isEmpty
  | map entries => !entries.isEmpty

/-- The datum is missing, or a number that is not one. -/
def isMissing : Datum → Bool
  | missing => true
  | float x => x.isNaN
  | _ => false

end Datum

/-- What identifies a scalar: numbers by their exact value, so that `1`, `1.0` and true are one. -/
inductive Key where
  /-- No value. -/
  | missing
  /-- NaN as the mark of a missing entry. -/
  | nan
  /-- A finite number. -/
  | number (value : Rat)
  /-- An infinity. -/
  | infinite (negative : Bool)
  /-- A text. -/
  | text (s : String)
deriving DecidableEq, Repr

/-- The key of a scalar; sequences and mappings have none. -/
def Datum.key? : Datum → Option Key
  | .missing => some .missing
  | .bool b => some (.number (if b then 1 else 0))
  | .int n => some (.number n)
  | .float x =>
    match Number.Binary64.ofFloat x with
    | .nan => some .nan
    | .infinite negative => some (.infinite negative)
    | .finite d => some (.number d.toRat)
  | .text s => some (.text s)
  | .list _ | .map _ => none

namespace Datum

/-- Equality of the scalars that can be keys of a mapping. -/
def sameScalar (a b : Datum) : Bool :=
  match a.key?, b.key? with
  | some k, some l => k == l
  | _, _ => false

mutual

/-- Equality of values: numbers by value, NaN equal to nothing, sequences item by item, mappings by
their entries in any order. -/
def same : Datum → Datum → Bool
  | list xs, list ys => sameAll xs ys
  | map es, map fs => es.length == fs.length && sameEntries es fs
  | a, b =>
    match a.key?, b.key? with
    | some .nan, _ => false
    | some k, some l => k == l
    | _, _ => false

/-- Equality item by item. -/
def sameAll : List Datum → List Datum → Bool
  | [], [] => true
  | x :: xs, y :: ys => same x y && sameAll xs ys
  | _, _ => false

/-- Every entry has an equal one on the other side. -/
def sameEntries : List (Datum × Datum) → List (Datum × Datum) → Bool
  | [], _ => true
  | (k, v) :: rest, fs => (fs.any fun (l, w) => sameScalar k l && same v w) && sameEntries rest fs

end

end Datum

end RankingEval
