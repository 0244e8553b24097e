/-
# The rankings of a table

Each score column of a schema gives a scoring, and each ordering column gives an order, under the name of the
column. Either way all identifiers are ranked, each of them once, as the cells of the column arrange the rows.
-/

import Mathlib
import RankingEval.Proofs.Evaluation.Agenda
import RankingEval.Proofs.Ranking.Arrangement
import RankingEval.Proofs.Ranking.Plot
import RankingEval.Proofs.Table.Loading

namespace RankingEval

open RankingEval.Ranking

/-- The identifiers of a ranking, the most outlying first. -/
def Ranking.ranked : Ranking → List Identifier
  | .scoring s => s.order.ids
  | .order o => o.ids

namespace Table

/-- A table is fit for a schema: its identifiers have a column of their own, no identifier or label is missing,
scores are numbers, and positions can be compared with each other. -/
structure Fits (t : Table) (s : Schema) : Prop where
  alone : ∀ name ∈ s.labelColumn :: (s.scoreColumns ++ s.orderingColumns), name ≠ s.idColumn
  identifiers : ∀ title column, t.find s.idColumn = .ok (title, column) →
    ∀ cell ∈ column.cells, cell.isMissing = false
  labels : ∀ title column, t.find s.labelColumn = .ok (title, column) →
    ∀ cell ∈ column.cells, cell.isMissing = false
  scores : ∀ name ∈ s.scoreColumns, ∀ title column, t.find name = .ok (title, column) →
    column.scores.isOk = true
  positions : ∀ name ∈ s.orderingColumns, ∀ title column, t.find name = .ok (title, column) →
    Comparable column.cells

/-- The ranking comes from a score column: it scores every identifier, and ranks them as the scores arrange the
rows, in the direction of the column. -/
def ScoredBy (t : Table) (s : Schema) (ids : Column) (name : Datum) (r : Ranking) : Prop :=
  ∃ title column values scoring places,
    t.find name = .ok (title, column) ∧ column.scores = .ok values ∧ values.length = ids.size ∧
      r = .scoring scoring ∧ name = .text scoring.name ∧
      scoring.ascending = Schema.isAmong s.ascendingColumns name ∧
      scoring.rows = ids.identifiers.zip values ∧
      Arranges (·.isNaN) (inOrder scoring.ascending) values places ∧
      r.ranked.map some = places.map fun place => ids.identifiers[place]?

/-- The ranking comes from an ordering column: it ranks every identifier as the positions arrange the rows. -/
def OrderedBy (t : Table) (ids : Column) (name : Datum) (r : Ranking) : Prop :=
  ∃ title column order places,
    t.find name = .ok (title, column) ∧ column.size = ids.size ∧
      r = .order order ∧ name = .text order.name ∧
      Arranges Datum.isMissing cellLE column.cells places ∧
      r.ranked.map some = places.map fun place => ids.identifiers[place]?

variable {t : Table} {s : Schema} {ids : Column}

theorem length_identifiers (ids : Column) : ids.identifiers.length = ids.size := List.length_map _

theorem length_of_scores {column : Column} {values : List Float} (h : column.scores = .ok values) :
    values.length = column.size :=
  (mapM_eq_ok_iff.mp h).length_eq.symm

/-- Of rows that are arranged by their values, the first parts are those at the places of the values. -/
theorem exists_places_of_zip {α β : Type} {missing : β → Bool} {le : β → β → Bool} {firsts : List α}
    {values : List β} (h : Orders missing le values) (hlength : firsts.length = values.length) :
    ∃ places, Arranges missing le values places ∧
      ((arranged missing le (firsts.zip values)).map Prod.fst).map some =
        places.map fun place => firsts[place]? := by
  have hvalues : (firsts.zip values).map Prod.snd = values := List.map_snd_zip hlength.ge
  have hfirsts : (firsts.zip values).map Prod.fst = firsts := List.map_fst_zip hlength.le
  have hzip : Orders missing le ((firsts.zip values).map Prod.snd) := hvalues.symm ▸ h
  obtain ⟨places, harranges, hrows⟩ := exists_places hzip
  rw [hvalues] at harranges
  refine ⟨places, harranges, ?_⟩
  have hmapped := congrArg (List.map (Option.map Prod.fst)) hrows
  rw [List.map_map, List.map_map] at hmapped
  rw [List.map_map]
  refine hmapped.trans (List.map_congr_left fun place _ => ?_)
  rw [Function.comp_apply, ← List.getElem?_map, hfirsts]

/-- One score column gives one scoring. -/
theorem exists_scoring {name : Datum} {title : String} {column : Column} (number : ℕ)
    (hfind : t.find name = .ok (title, column)) (hsize : column.size = ids.size)
    (hscores : column.scores.isOk = true) :
    ∃ scoring, Scoring.ofColumns number title (Schema.isAmong s.ascendingColumns name) ids column =
        .ok scoring ∧
      scoring.number = number ∧ ScoredBy t s ids name (.scoring scoring) := by
  obtain ⟨values, hvalues⟩ := exists_of_isOk hscores
  have hlength : values.length = ids.size := (length_of_scores hvalues).trans hsize
  obtain ⟨places, harranges, hranked⟩ := exists_places_of_zip
    (orders_scores (Schema.isAmong s.ascendingColumns name) values)
    ((length_identifiers ids).trans hlength.symm)
  refine ⟨⟨number, title, ids.identifiers.zip values, Schema.isAmong s.ascendingColumns name⟩, ?_,
    rfl, title, column, values, _, places, hfind, hvalues, hlength, rfl,
    (find_eq_ok_iff.mp hfind).1, rfl, rfl, harranges, ?_⟩
  · rw [Scoring.ofColumns, hvalues]
    rfl
  · rw [ranked, Scoring.order, sortedByScore_eq_arranged]
    exact hranked

/-- One ordering column gives one order. -/
theorem exists_order {name : Datum} {title : String} {column : Column} (number : ℕ)
    (hfind : t.find name = .ok (title, column)) (hsize : column.size = ids.size)
    (hpositions : Comparable column.cells) :
    ∃ order, Order.ofColumns number title ids column = .ok order ∧ order.handle = .made number ∧
      OrderedBy t ids name (.order order) := by
  have hlength : ids.identifiers.length = column.cells.length := (length_identifiers ids).trans hsize.symm
  have hcells : (ids.identifiers.zip column.cells).map Prod.snd = column.cells :=
    List.map_snd_zip hlength.ge
  obtain ⟨places, harranges, hranked⟩ := exists_places_of_zip (orders_cells hpositions) hlength
  refine ⟨⟨.made number, title, _⟩, ?_, rfl, title, column, _, places, hfind, hsize, rfl,
    (find_eq_ok_iff.mp hfind).1, harranges, hranked⟩
  rw [Order.ofColumns, sortedByCell_eq_arranged (hcells.symm ▸ hpositions)]
  rfl

/-- The columns that a schema names give one scoring each, numbered in order. -/
theorem exists_scorings (others : Table) {names : List Datum} (number : ℕ)
    (hnames : ∀ name ∈ names, ∃ title column, others.find name = .ok (title, column) ∧
      t.find name = .ok (title, column) ∧ column.size = ids.size ∧ column.scores.isOk = true) :
    ∃ rankings, others.scorings s ids number names = .ok rankings ∧
      List.Forall₂ (ScoredBy t s ids) names rankings ∧
      rankings.map handle = (List.range' number names.length).map .made ∧
      ∀ r ∈ rankings, r.isScoring = true := by
  induction names generalizing number with
  | nil => exact ⟨[], rfl, .nil, rfl, List.forall_mem_nil _⟩
  | cons name names ih =>
      obtain ⟨title, column, hfind, hfind', hsize, hscores⟩ := hnames name List.mem_cons_self
      obtain ⟨scoring, hscoring, hnumber, hscored⟩ := exists_scoring number hfind' hsize hscores
      obtain ⟨rankings, hrankings, hall, hhandles, hkind⟩ := ih (number + 1) fun other hother =>
        hnames other (List.mem_cons_of_mem name hother)
      refine ⟨.scoring scoring :: rankings, ?_, .cons hscored hall, ?_, ?_⟩
      · rw [scorings]
        exact bind_eq_ok_iff.mpr ⟨_, hfind, bind_eq_ok_iff.mpr
          ⟨scoring, hscoring, bind_eq_ok_iff.mpr ⟨rankings, hrankings, rfl⟩⟩⟩
      · rw [List.map_cons, hhandles, handle, hnumber, List.length_cons, List.range'_succ, List.map_cons]
      · exact List.forall_mem_cons.mpr ⟨rfl, hkind⟩

theorem exists_orders (others : Table) {names : List Datum} (number : ℕ)
    (hnames : ∀ name ∈ names, ∃ title column, others.find name = .ok (title, column) ∧
      t.find name = .ok (title, column) ∧ column.size = ids.size ∧ Comparable column.cells) :
    ∃ rankings, others.orders ids number names = .ok rankings ∧
      List.Forall₂ (OrderedBy t ids) names rankings ∧
      rankings.map handle = (List.range' number names.length).map .made ∧
      ∀ r ∈ rankings, r.isScoring = false := by
  induction names generalizing number with
  | nil => exact ⟨[], rfl, .nil, rfl, List.forall_mem_nil _⟩
  | cons name names ih =>
      obtain ⟨title, column, hfind, hfind', hsize, hpositions⟩ := hnames name List.mem_cons_self
      obtain ⟨order, horder, hhandle, hordered⟩ := exists_order number hfind' hsize hpositions
      obtain ⟨rankings, hrankings, hall, hhandles, hkind⟩ := ih (number + 1) fun other hother =>
        hnames other (List.mem_cons_of_mem name hother)
      refine ⟨.order order :: rankings, ?_, .cons hordered hall, ?_, ?_⟩
      · rw [orders]
        exact bind_eq_ok_iff.mpr ⟨_, hfind, bind_eq_ok_iff.mpr
          ⟨order, horder, bind_eq_ok_iff.mpr ⟨rankings, hrankings, rfl⟩⟩⟩
      · rw [List.map_cons, hhandles, handle, hhandle, List.length_cons, List.range'_succ, List.map_cons]
      · exact List.forall_mem_cons.mpr ⟨rfl, hkind⟩

/-- What a table yields for a schema: its labels row by row, and one ranking for each column that is to rank
the rows. -/
structure Yields (t : Table) (s : Schema) (ids labelled : Column) (scored ordered : List Ranking) : Prop where
  foundIds : ∃ title, t.find s.idColumn = .ok (title, ids)
  foundLabels : ∃ title, t.find s.labelColumn = .ok (title, labelled)
  sameSize : labelled.size = ids.size
  eq_ok : t.rankings s = .ok (.ofTexts ids labelled.texts, scored ++ ordered)
  byScores : List.Forall₂ (ScoredBy t s ids) s.scoreColumns scored
  byPositions : List.Forall₂ (OrderedBy t ids) s.orderingColumns ordered
  numbered : (scored ++ ordered).map handle =
    (List.range (s.scoreColumns.length + s.orderingColumns.length)).map .made
  scorings : ∀ r ∈ scored, r.isScoring = true
  orders : ∀ r ∈ ordered, r.isScoring = false

/-- A rectangular table that has the columns of a schema yields all rankings, if its identifiers have a column
of their own, scores are numbers, and positions can be compared. -/
theorem exists_yields_of_alone (ht : t.Rectangular)
    (halone : ∀ name ∈ s.labelColumn :: (s.scoreColumns ++ s.orderingColumns), name ≠ s.idColumn)
    (hscores : ∀ name ∈ s.scoreColumns, ∀ title column, t.find name = .ok (title, column) →
      column.scores.isOk = true)
    (hpositions : ∀ name ∈ s.orderingColumns, ∀ title column, t.find name = .ok (title, column) →
      Comparable column.cells)
    (hcolumns : ∀ name ∈ required s, ∃ title column, t.find name = .ok (title, column)) :
    ∃ ids labelled scored ordered, t.Yields s ids labelled scored ordered := by
  obtain ⟨idName, ids, hids⟩ := hcolumns s.idColumn List.mem_cons_self
  have hfound : ∀ name ∈ s.labelColumn :: (s.scoreColumns ++ s.orderingColumns), ∃ title column,
      (t.without idName).find name = .ok (title, column) ∧ t.find name = .ok (title, column) ∧
        column.size = ids.size := by
    intro name hname
    obtain ⟨title, column, hfind⟩ := hcolumns name (List.mem_cons_of_mem _ hname)
    refine ⟨title, column, ?_, hfind, (size_of_find ht hfind).trans (size_of_find ht hids).symm⟩
    rw [find_without, hfind]
    rw [← (find_eq_ok_iff.mp hids).1]
    exact halone name hname
  obtain ⟨labelTitle, labelled, hlabelled, hlabelled', hsize⟩ := hfound s.labelColumn List.mem_cons_self
  obtain ⟨scored, hscored, hscorings, hhandles, hkind⟩ := exists_scorings (t.without idName) 0
    fun name hname => by
      obtain ⟨title, column, hfind, hfind', hcolumn⟩ := hfound name
        (List.mem_cons_of_mem _ (List.mem_append_left _ hname))
      exact ⟨title, column, hfind, hfind', hcolumn, hscores name hname title column hfind'⟩
  obtain ⟨ordered, hordered, horders, hhandles', hkind'⟩ := exists_orders (t.without idName)
    scored.length fun name hname => by
      obtain ⟨title, column, hfind, hfind', hcolumn⟩ := hfound name
        (List.mem_cons_of_mem _ (List.mem_append_right _ hname))
      exact ⟨title, column, hfind, hfind', hcolumn, hpositions name hname title column hfind'⟩
  have hlength := hscorings.length_eq
  refine ⟨ids, labelled, scored, ordered, ⟨idName, hids⟩, ⟨labelTitle, hlabelled'⟩, hsize, ?_, hscorings,
    horders, ?_, hkind, hkind'⟩
  · rw [rankings]
    refine bind_eq_ok_iff.mpr ⟨_, hids, bind_eq_ok_iff.mpr ⟨_, hlabelled, ?_⟩⟩
    exact bind_eq_ok_iff.mpr ⟨_, hscored, bind_eq_ok_iff.mpr ⟨_, hordered, rfl⟩⟩
  · have hrange := List.range'_append_1 (s := 0) (m := scored.length) (n := s.orderingColumns.length)
    rw [Nat.zero_add] at hrange
    rw [List.map_append, hhandles, hhandles', ← List.map_append, List.range_eq_range', hlength, hrange]

/-- So does one that is fit for its schema. -/
theorem exists_yields (ht : t.Rectangular) (hfits : t.Fits s)
    (hcolumns : ∀ name ∈ required s, ∃ title column, t.find name = .ok (title, column)) :
    ∃ ids labelled scored ordered, t.Yields s ids labelled scored ordered :=
  exists_yields_of_alone ht hfits.alone hfits.scores hfits.positions hcolumns

/-! ## What the rankings rank -/

theorem perm_of_places {α : Type} {l ranked : List α} {places : List ℕ}
    (hperm : places.Perm (List.range l.length))
    (h : ranked.map some = places.map fun place => l[place]?) : ranked.Perm l := by
  have hall : (List.range l.length).map (fun place => l[place]?) = l.map some := by
    apply List.ext_getElem
    · simp
    · intro place hplace _
      simp
  rw [← List.map_perm_map_iff (Option.some_injective α), h, ← hall]
  exact hperm.map _

/-- A scoring from a column has all identifiers, row by row. -/
theorem ScoredBy.identities {name : Datum} {r : Ranking} (h : ScoredBy t s ids name r) :
    r.identities = ids.identifiers.map (·.identity) := by
  obtain ⟨title, column, values, scoring, places, -, -, hlength, rfl, -, -, hrows, -⟩ := h
  have hfirsts : (ids.identifiers.zip values).map Prod.fst = ids.identifiers :=
    List.map_fst_zip ((length_identifiers ids).trans hlength.symm).le
  rw [Ranking.identities, hrows]
  conv_rhs => rw [← hfirsts, List.map_map]
  rfl

/-- It ranks all of them. -/
theorem ScoredBy.ranked_perm {name : Datum} {r : Ranking} (h : ScoredBy t s ids name r) :
    r.ranked.Perm ids.identifiers := by
  obtain ⟨title, column, values, scoring, places, -, -, hlength, rfl, -, -, -, harranges, hranked⟩ := h
  have hperm := harranges.perm
  rw [hlength, ← length_identifiers] at hperm
  exact perm_of_places hperm hranked

/-- So does an order from a column. -/
theorem OrderedBy.ranked_perm {name : Datum} {r : Ranking} (h : OrderedBy t ids name r) :
    r.ranked.Perm ids.identifiers := by
  obtain ⟨title, column, order, places, -, hsize, rfl, -, harranges, hranked⟩ := h
  have hperm := harranges.perm
  rw [show column.cells.length = ids.identifiers.length from hsize.trans (length_identifiers ids).symm]
    at hperm
  exact perm_of_places hperm hranked

theorem OrderedBy.identities {name : Datum} {r : Ranking} (h : OrderedBy t ids name r) :
    r.identities.Perm (ids.identifiers.map (·.identity)) := by
  have hranked := h.ranked_perm
  obtain ⟨title, column, order, places, -, -, rfl, -, -, -⟩ := h
  exact hranked.map _

end Table

end RankingEval
