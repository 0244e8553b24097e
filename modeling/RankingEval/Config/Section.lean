/-
# Sections of a configuration

A section is an ordered mapping of settings. It may be written as a mapping or as a sequence of pairs,
and a section that is not set has no settings.
-/

import RankingEval.Failure

namespace RankingEval

/-- The settings of a section, each under its key. -/
structure Section where
  /-- The settings; no two of them have the same key. -/
  entries : List (Datum × Datum)

namespace Datum

/-- The elements that a datum runs through: the items of a sequence, the characters of a text or the
keys of a mapping. -/
def elements? : Datum → Option (List Datum)
  | list items => some items
  | text s => some (s.toList.map fun c => .text c.toString)
  | map entries => some (entries.map (·.1))
  | _ => none

/-- The elements of a datum where a sequence is expected; one that is not set has none. -/
def sequence (d : Datum) : Except Failure (List Datum) :=
  if d.isSet then
    match d.elements? with
    | some items => .ok items
    | none => .error .mistyped
  else .ok []

/-- The value under a key. -/
def lookup? (entries : List (Datum × Datum)) (key : Datum) : Option Datum :=
  (entries.find? fun entry => entry.1.sameScalar key).map (·.2)

/-- Sets a key to a value; a key that comes again keeps its place. -/
def put (entries : List (Datum × Datum)) (key value : Datum) : List (Datum × Datum) :=
  if entries.any (·.1.sameScalar key) then
    entries.map fun entry => if entry.1.sameScalar key then (entry.1, value) else entry
  else entries ++ [(key, value)]

/-- The key and the value of a pair. -/
def asPair (d : Datum) : Except Failure (Datum × Datum) :=
  match d.elements? with
  | some [key, value] => if key.key?.isSome then .ok (key, value) else .error .mistyped
  | some _ => .error .unreadable
  | none => .error .mistyped

end Datum

namespace Section

/-- The section that a datum stands for. -/
def ofDatum (d : Datum) : Except Failure Section :=
  if !d.isSet then .ok ⟨[]⟩
  else
    match d with
    | .map entries => .ok ⟨entries⟩
    | _ =>
      match d.elements? with
      | some items =>
        items.foldlM (fun settings item => do
          let (key, value) ← item.asPair
          return ⟨Datum.put settings.entries key value⟩) ⟨[]⟩
      | none => .error .mistyped

/-- A setting by its name. -/
def get? (s : Section) (name : String) : Option Datum := Datum.lookup? s.entries (.text name)

/-- A setting by its name; one that is not given is missing. -/
def get (s : Section) (name : String) : Datum := (s.get? name).getD .missing

end Section

end RankingEval
