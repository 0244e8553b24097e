/-
# Loaded tables are looked up with success

The checks of a load and the look-ups after it stand apart: columns are checked before the identifiers leave the
table, and identifiers are told apart by one comparison and looked up by another. Where the identifiers have a
column of their own and no NaN is among the doubles in it, the checks suffice. Every column that the schema names
is found, and so is the score of every row.
-/

import Mathlib
import RankingEval.Proofs.Evaluation.Misses
import RankingEval.Proofs.Table.Matching
import RankingEval.Proofs.Table.Rankings

namespace RankingEval

open RankingEval.Number RankingEval.Ranking

namespace Table

open RankingEval.Evaluation

/-- The cells of a table can be read as a schema means them: no label is missing, scores are numbers, and
positions can be compared with each other. -/
structure Legible (t : Table) (s : Schema) : Prop where
  labels : ∀ title column, t.find s.labelColumn = .ok (title, column) →
    ∀ cell ∈ column.cells, cell.isMissing = false
  scores : ∀ name ∈ s.scoreColumns, ∀ title column, t.find name = .ok (title, column) →
    column.scores.isOk = true
  positions : ∀ name ∈ s.orderingColumns, ∀ title column, t.find name = .ok (title, column) →
    Comparable column.cells

/-- No look-up finds nothing, when the rankings of a table are made and when they are evaluated. -/
structure MissesNothing (t : Table) (s : Schema) : Prop where
  made : missed (t.rankings s) = false
  evaluated : ∀ labels rankings, t.rankings s = .ok (labels, rankings) → ∀ pattern before,
    missed ((evaluate pattern labels rankings).run.run before).1 = false

/-- The identifiers have a column of their own. -/
def IdsAlone (s : Schema) : Prop :=
  ∀ name ∈ s.labelColumn :: (s.scoreColumns ++ s.orderingColumns), name ≠ s.idColumn

/-- Where scores are looked up by identifiers, these can be looked up again. -/
def IdsRetrievable (t : Table) (s : Schema) : Prop :=
  s.scoreColumns ≠ [] → ∀ title ids, t.find s.idColumn = .ok (title, ids) → ids.Retrievable

variable {t : Table} {s : Schema} {ids labelled : Column} {scored ordered : List Ranking}

/-- The scores of a column are found again, row by row. -/
theorem ScoredBy.get_eq (hids : ids.Retrievable) (hnodup : (ids.cells.filterMap Datum.key?).Nodup) {name : Datum}
    {scoring : Scoring} (h : t.ScoredBy s ids name (.scoring scoring)) {table : Scores}
    (htable : scoring.table = .ok table) : ∀ row ∈ scoring.rows, table.get row.1.identity = .ok row.2 := by
  have hidentities : scoring.rows.map (·.1.identity) = ids.identifiers.map (·.identity) := h.identities
  have hidentified : scoring.Identified := by
    constructor
    · intro row hrow
      have hmem : row.1.identity ∈ scoring.rows.map (·.1.identity) := List.mem_map_of_mem hrow
      cases hid : row.1.identity with
      | keyed k => exact ⟨k, rfl⟩
      | apart => exact absurd hid (hids.ne_apart _ (hidentities ▸ hmem))
      | keyless value =>
          exact absurd hid (Scores.ne_keyless_of_ofList htable _ (List.mem_map_of_mem hrow) value)
    · rw [hidentities]
      exact hids.different hnodup
  obtain ⟨found, hfound, hget⟩ := hidentified.table
  cases hfound.symm.trans htable
  exact hget

/-- Every scoring that a table yields comes from a score column. -/
theorem Yields.exists_scoredBy (h : t.Yields s ids labelled scored ordered) {scoring : Scoring}
    (hscoring : .scoring scoring ∈ scored ++ ordered) :
    ∃ name ∈ s.scoreColumns, t.ScoredBy s ids name (.scoring scoring) := by
  rcases List.mem_append.mp hscoring with hscored | hordered
  · obtain ⟨i, hget⟩ := List.mem_iff_get.mp hscored
    have hi : i < s.scoreColumns.length := h.byScores.length_eq.symm ▸ i.isLt
    have hby := h.byScores.get hi i.isLt
    exact ⟨_, List.get_mem _ _, hget ▸ hby⟩
  · cases h.orders _ hordered

/-- What a schema names in a loaded table is found, and what its rankings rank is found among their scores. The
identifiers have to have a column of their own for this, as they leave the table before the other columns are
looked up; and where scores are looked up, no NaN may be an identifier among doubles, as it is equal to nothing.
Then all rankings are made, every row of a score column finds its score, and no evaluation fails because a
look-up finds nothing. -/
theorem missesNothing_of_load {files : Files.Tree} {log : Journal} (hload : load files s = .ok (t, log))
    (hcolumns : ∀ table, files.find s.dataPath = .ok (.table table) → table.Rectangular) (hlegible : t.Legible s)
    (halone : IdsAlone s) (hids : t.IdsRetrievable s) :
    ∃ ids labelled scored ordered, t.Yields s ids labelled scored ordered ∧
      (∀ scoring, .scoring scoring ∈ scored ++ ordered → ∀ table, scoring.table = .ok table →
        ∀ row ∈ scoring.rows, table.get row.1.identity = .ok row.2) ∧
      t.MissesNothing s := by
  obtain ⟨node, -, -, hcheck⟩ := exists_of_load hload
  obtain ⟨hfound, hdifferent⟩ := checked hcheck
  obtain ⟨ids, labelled, scored, ordered, hyields⟩ := exists_yields_of_alone (rectangular_of_load hload hcolumns)
    halone hlegible.scores hlegible.positions hfound
  obtain ⟨idTitle, hid⟩ := hyields.foundIds
  have hscores : ∀ scoring, .scoring scoring ∈ scored ++ ordered → ∀ table, scoring.table = .ok table →
      ∀ row ∈ scoring.rows, table.get row.1.identity = .ok row.2 := by
    intro scoring hscoring table htable
    obtain ⟨name, hname, hby⟩ := hyields.exists_scoredBy hscoring
    have hsome : s.scoreColumns ≠ [] := List.ne_nil_of_mem hname
    exact hby.get_eq (hids hsome _ _ hid) (hdifferent _ _ hid) htable
  refine ⟨ids, labelled, scored, ordered, hyields, hscores, ⟨?_, ?_⟩⟩
  · rw [hyields.eq_ok]
    rfl
  · intro labels rankings hrankings pattern before
    cases hyields.eq_ok.symm.trans hrankings
    by_contra hmissed
    rw [Bool.not_eq_false] at hmissed
    obtain ⟨scoring, table, hscoring, htable, row, hrow, hget⟩ := exists_of_evaluate_missed hmissed
    rw [hscores scoring hscoring table htable row hrow] at hget
    cases hget

/-- A table of three rows, one of them without an identifier. -/
def gappedTable : Table := .ofValues [("id", [.text "a", .missing, .text "c"]),
  ("label", [.text "outlier", .text "inlier", .text "outlier"]), ("score", [.int 3, .int 5, .int 3]),
  ("position", [.int 2, .int 1, .int 3])]

def gappedSchema : Schema :=
  ⟨⟨"", ["t.parquet"]⟩, .text "id", .text "label", [.text "score"], [], [.text "position"]⟩

def gappedFiles : Files.Tree := ⟨"/home", [(["t.parquet"], .table gappedTable)]⟩

theorem legible_gappedTable : gappedTable.Legible gappedSchema where
  labels title column h := by
    cases h
    decide
  scores name hname title column h := by
    obtain rfl := List.mem_singleton.mp hname
    cases h
    decide +kernel
  positions name hname title column h := by
    obtain rfl := List.mem_singleton.mp hname
    cases h
    decide

/-- Among texts a missing identifier finds its score. -/
theorem missesNothing_of_load_gapped :
    ∃ ids labelled scored ordered, gappedTable.Yields gappedSchema ids labelled scored ordered ∧
      (∀ scoring, .scoring scoring ∈ scored ++ ordered → ∀ table, scoring.table = .ok table →
        ∀ row ∈ scoring.rows, table.get row.1.identity = .ok row.2) ∧
      gappedTable.MissesNothing gappedSchema := by
  have hload : ∃ log, load gappedFiles gappedSchema = .ok (gappedTable, log) := ⟨_, rfl⟩
  obtain ⟨log, hload⟩ := hload
  have hcolumns : ∀ table, gappedFiles.find gappedSchema.dataPath = .ok (.table table) →
      table.Rectangular := by
    intro table hfind
    cases hfind
    decide
  have hids : gappedTable.IdsRetrievable gappedSchema := by
    intro _ title ids h hreal
    cases h
    cases hreal
  exact missesNothing_of_load hload hcolumns legible_gappedTable (by simp [IdsAlone, gappedSchema]) hids

/-- A table whose rows are ordered by their identifiers. -/
def sharedTable : Table :=
  .ofValues [("id", [.text "a", .text "b"]), ("label", [.text "outlier", .text "inlier"])]

def sharedSchema : Schema := ⟨⟨"", ["t.parquet"]⟩, .text "id", .text "label", [], [], [.text "id"]⟩

def sharedFiles : Files.Tree := ⟨"/home", [(["t.parquet"], .table sharedTable)]⟩

theorem legible_sharedTable : sharedTable.Legible sharedSchema where
  labels title column h := by
    cases h
    decide
  scores name hname := absurd hname List.not_mem_nil
  positions name hname title column h := by
    obtain rfl := List.mem_singleton.mp hname
    cases h
    decide

/-- A table whose only identifier is a double that is not a number. -/
def unnumberedTable : Table :=
  .ofValues [("id", [.float notANumber]), ("label", [.text "outlier"]), ("s", [.int 1])]

def unnumberedSchema : Schema := ⟨⟨"", ["t.parquet"]⟩, .text "id", .text "label", [.text "s"], [], []⟩

def unnumberedFiles : Files.Tree := ⟨"/home", [(["t.parquet"], .table unnumberedTable)]⟩

theorem legible_unnumberedTable : unnumberedTable.Legible unnumberedSchema where
  labels title column h := by
    cases h
    decide
  scores name hname title column h := by
    obtain rfl := List.mem_singleton.mp hname
    cases h
    decide +kernel
  positions name hname := absurd hname List.not_mem_nil

/-- Neither condition on the identifiers can be left out: the order by the identifiers finds no column of this
name any more, and the identifier that is not a number finds no score. -/
theorem not_every_load_misses_nothing :
    (¬ ∀ (files : Files.Tree) (s : Schema) (t : Table) (log : Journal), load files s = .ok (t, log) →
      (∀ table, files.find s.dataPath = .ok (.table table) → table.Rectangular) → t.Legible s →
        t.IdsRetrievable s → t.MissesNothing s) ∧
    ¬ ∀ (files : Files.Tree) (s : Schema) (t : Table) (log : Journal), load files s = .ok (t, log) →
      (∀ table, files.find s.dataPath = .ok (.table table) → table.Rectangular) → t.Legible s →
        IdsAlone s → t.MissesNothing s := by
  constructor
  · intro h
    have hload : ∃ log, load sharedFiles sharedSchema = .ok (sharedTable, log) := ⟨_, rfl⟩
    obtain ⟨log, hload⟩ := hload
    have hcolumns : ∀ table, sharedFiles.find sharedSchema.dataPath = .ok (.table table) →
        table.Rectangular := by
      intro table hfind
      cases hfind
      decide
    have hunscored : sharedTable.IdsRetrievable sharedSchema := fun hscores => absurd rfl hscores
    cases (h _ _ _ log hload hcolumns legible_sharedTable hunscored).made
  · intro h
    have hload : ∃ log, load unnumberedFiles unnumberedSchema = .ok (unnumberedTable, log) := ⟨_, rfl⟩
    obtain ⟨log, hload⟩ := hload
    have hcolumns : ∀ table, unnumberedFiles.find unnumberedSchema.dataPath = .ok (.table table) →
        table.Rectangular := by
      intro table hfind
      cases hfind
      decide
    have halone : IdsAlone unnumberedSchema := by simp [IdsAlone, unnumberedSchema]
    have hevaluated := (h _ _ _ log hload hcolumns legible_unnumberedTable halone).evaluated
    have hmisses : (unnumberedTable.rankings unnumberedSchema).toOption.any (fun read =>
        missed ((evaluate "outlier" read.1 read.2).run.run {}).1) = true := by decide +kernel
    obtain ⟨⟨labels, rankings⟩, hrankings, hmissed⟩ := exists_of_any hmisses
    rw [hevaluated labels rankings hrankings "outlier" {}] at hmissed
    cases hmissed

end Table

end RankingEval
