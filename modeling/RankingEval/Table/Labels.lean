/-
# Labels

The labels of identifiers, and what is asked of them: the identifiers whose label passes a test, and how
often each label occurs. A label is compared as a text, and a missing one has none.
-/

import RankingEval.Pattern.Reader
import RankingEval.Pattern.Start
import RankingEval.Table.Column

namespace RankingEval

open RankingEval.Ranking

/-- An identifier with the text of its label. -/
structure Labelled where
  /-- The identifier. -/
  id : Identifier
  /-- The text of the label, if it is not missing. -/
  label : Option String

/-- The label passes a test. -/
def Labelled.passes (test : String → Bool) (l : Labelled) : Bool := l.label.any test

/-- The labels of some identifiers, row by row. -/
abbrev Labels := List Labelled

namespace Labels

/-- The rows of a column of identifiers and as many texts. -/
def ofTexts (ids : Column) (texts : List (Option String)) : Labels :=
  (ids.identifiers.zip texts).map fun (id, label) => ⟨id, label⟩

/-- Labels row by row; both columns have the kind that their values suggest. -/
def ofRows (rows : List (Datum × Datum)) : Labels :=
  ofTexts (.infer (rows.map (·.1))) (Column.infer (rows.map (·.2))).texts

/-- Stores an entry under its key, in the place of an earlier one with that key. -/
def put (entries : List (Key × Datum × Datum)) (k : Key) (id label : Datum) :
    List (Key × Datum × Datum) :=
  if entries.any (·.1 == k) then
    entries.map fun entry => if entry.1 == k then (k, entry.2.1, label) else entry
  else entries ++ [(k, id, label)]

/-- Labels by identifier. An identifier that comes again keeps its place and takes the later label, and
each label has the text of its own kind. -/
def ofMapping (entries : List (Datum × Datum)) : Except Failure Labels := do
  let kept ← entries.foldlM
    (fun kept (id, label) =>
      match id.key? with
      | some k => .ok (put kept k id label)
      | none => .error .mistyped)
    []
  return ofTexts (.infer (kept.map (·.2.1))) (kept.map fun entry => Column.textOf entry.2.2)

/-- The identifiers with some label that passes a test, each once, in the order in which they first
appear. A missing label cannot be tested, and an identifier without a key cannot be collected. -/
def matching (test : String → Bool) (labels : Labels) : Except Failure (List Identifier) :=
  let passing := labels.filter (Labelled.passes test)
  if labels.all (·.label.isSome) && !passing.any (·.id.identity.isKeyless) then
    let hits := passing.filterMap (·.id.identity.key?)
    let chosen (l : Labelled) : Bool :=
      match l.id.identity.key? with
      | some k => hits.contains k
      | none => l.passes test
    .ok (Identifier.distinct ((labels.filter chosen).map (·.id)))
  else .error .mistyped

/-- The identifiers with a label in which a pattern occurs. Only a text is a pattern; anything else is
noticed at the first label. -/
def matchingPattern (flags : Pattern.Flags) (pattern : Datum) (labels : Labels) :
    Except Failure (List Identifier) :=
  match pattern with
  | .text source =>
    match Pattern.compile flags source with
    | .ok compiled => labels.matching compiled.occursIn
    | .error fault => .error (.badPattern source fault)
  | _ => if labels.isEmpty then .ok [] else .error .unsupported

end Labels

/-- Adds one to the count of a value, in the group of the values equal to it. -/
def tallyValue (groups : List (Datum × Nat)) (d : Datum) : List (Datum × Nat) :=
  if groups.any (·.1.sameScalar d) then
    groups.map fun (e, n) => if e.sameScalar d then (e, n + 1) else (e, n)
  else groups ++ [(d, 1)]

/-- How often each text occurs among labels. Equal labels are counted together under the text of the
first of them; where unequal labels share a text, the rarest of them gives the count. Sequences and
mappings cannot be counted. -/
def labelCounts (labels : List Datum) : Except Failure (List (String × Nat)) :=
  let present := (Column.infer labels).cells.filter fun d => !d.isMissing
  if present.all (·.key?.isSome) then
    let groups := (present.foldl tallyValue []).mergeSort fun a b => decide (b.2 ≤ a.2)
    let counts := groups.foldl
      (fun counts (d, n) => (counts.filter fun entry => entry.1 != d.asText) ++ [(d.asText, n)]) []
    .ok (counts.mergeSort fun a b => decide (a.1 ≤ b.1))
  else .error .mistyped

end RankingEval
