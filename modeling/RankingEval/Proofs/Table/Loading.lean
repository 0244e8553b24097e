/-
# Tables that are loaded

A table that is loaded satisfies its schema: every column that the schema names is there, and no identifier
stands in its column twice. The columns of a text are equally long, whatever is read from their cells.
-/

import Mathlib
import RankingEval.Proofs.Computation
import RankingEval.Table.Load

namespace RankingEval

/-! ## Columns -/

namespace Column

theorem size_withGaps (kind : Kind) (cells : List String) (read : String → Datum) :
    (withGaps kind cells read).size = cells.length :=
  List.length_map _

theorem size_asTexts (cells : List String) : (asTexts cells).size = cells.length := List.length_map _

theorem size_ofWhole (cells : List String) : (ofWhole cells).size = cells.length := by
  rw [ofWhole]
  split_ifs
  · exact size_withGaps _ _ _
  · exact List.length_map _

theorem size_ofAnyWhole (cells present : List String) : (ofAnyWhole cells present).size = cells.length := by
  rw [ofAnyWhole]
  split_ifs
  · exact size_withGaps _ _ _
  · exact size_asTexts cells

theorem size_ofLargeWhole? {cells present : List String} {c : Column}
    (h : ofLargeWhole? cells present = some c) : c.size = cells.length := by
  rw [ofLargeWhole?] at h
  split at h
  · cases h
  · cases h
    exact size_ofAnyWhole cells present
  · dsimp only at h
    split_ifs at h <;> cases h
    · exact size_asTexts cells
    · exact size_ofAnyWhole cells present
    · exact size_ofWhole cells

theorem size_ofWhole? {cells present : List String} {c : Column} (h : ofWhole? cells present = some c) :
    c.size = cells.length := by
  rw [ofWhole?] at h
  split_ifs at h
  split at h
  · cases h
    exact size_ofWhole cells
  · exact size_ofLargeWhole? h
  · cases h

theorem size_ofReal? {cells present : List String} {c : Column} (h : ofReal? cells present = some c) :
    c.size = cells.length := by
  rw [ofReal?] at h
  split_ifs at h
  cases h
  exact size_withGaps _ _ _

theorem size_ofTruth? {cells present : List String} {c : Column} (h : ofTruth? cells present = some c) :
    c.size = cells.length := by
  rw [ofTruth?] at h
  split_ifs at h <;> cases h <;> exact size_withGaps _ _ _

/-- A column has a cell for each text, whatever the texts stand for. -/
theorem size_ofTexts (cells : List String) : (ofTexts cells).size = cells.length := by
  rw [ofTexts]
  split_ifs with hempty
  · rw [List.isEmpty_iff.mp hempty]
    rfl
  · cases hwhole : ofWhole? cells (cells.filter fun s => !Cell.isMissing s) with
    | some c => exact size_ofWhole? hwhole
    | none =>
        cases hreal : ofReal? cells (cells.filter fun s => !Cell.isMissing s) with
        | some c => exact size_ofReal? hreal
        | none =>
            cases htruth : ofTruth? cells (cells.filter fun s => !Cell.isMissing s) with
            | some c => exact size_ofTruth? htruth
            | none => exact size_withGaps _ _ _

end Column

namespace Table

/-- All columns of a table are equally long. -/
def Rectangular (t : Table) : Prop := ∀ c ∈ t.columns, c.2.size = t.rowCount

instance (t : Table) : Decidable t.Rectangular :=
  inferInstanceAs (Decidable (∀ c ∈ t.columns, c.2.size = t.rowCount))

theorem rectangular_of_size {t : Table} {n : ℕ} (h : ∀ c ∈ t.columns, c.2.size = n) : t.Rectangular := by
  intro c hc
  rw [h c hc, rowCount]
  split
  · rename_i hnil
    rw [hnil] at hc
    cases hc
  · rename_i first rest hcons
    have hfirst := h (_, _) (hcons ▸ List.mem_cons_self)
    exact hfirst.symm

theorem rectangular_ofRecords (header : List String) (rows : List (List String)) :
    (ofRecords header rows).Rectangular := by
  apply rectangular_of_size (n := rows.length)
  intro c hc
  rw [ofRecords] at hc
  obtain ⟨named, -, rfl⟩ := List.mem_map.mp hc
  rw [Column.size_ofTexts, List.length_map]

theorem rectangular_of_ofText {text : String} {t : Table} (h : ofText text = .ok t) : t.Rectangular := by
  rw [ofText] at h
  obtain ⟨records, -, h⟩ := bind_eq_ok_iff.mp h
  obtain ⟨⟨header, rows⟩, -, h⟩ := bind_eq_ok_iff.mp h
  cases h
  exact rectangular_ofRecords header rows

/-! ## Names -/

theorem find_eq_ok_iff {t : Table} {name : Datum} {title : String} {column : Column} :
    t.find name = .ok (title, column) ↔ name = .text title ∧ t.column? title = some column := by
  cases name with
  | text s =>
      rw [find]
      cases hcolumn : t.column? s with
      | none =>
          constructor
          · rintro ⟨⟩
          · rintro ⟨⟨⟩, hfound⟩
            cases hcolumn.symm.trans hfound
      | some found =>
          constructor
          · rintro ⟨⟩
            exact ⟨rfl, hcolumn⟩
          · rintro ⟨⟨⟩, hfound⟩
            cases hcolumn.symm.trans hfound
            rfl
  | _ =>
      constructor
      · rintro ⟨⟩
      · rintro ⟨⟨⟩, -⟩

/-- A column that is found is one of the table. -/
theorem size_of_find {t : Table} (ht : t.Rectangular) {name : Datum} {title : String} {column : Column}
    (h : t.find name = .ok (title, column)) : column.size = t.rowCount := by
  obtain ⟨-, hcolumn⟩ := find_eq_ok_iff.mp h
  obtain ⟨front, back, hsplit, -⟩ := List.lookup_eq_some_iff.mp hcolumn
  exact ht (title, column) (by simp [hsplit])

/-- Without one column, the others are found as before. -/
theorem find_without {t : Table} {name : Datum} {other : String} (h : name ≠ .text other) :
    (t.without other).find name = t.find name := by
  cases name with
  | text s =>
      have hne : s ≠ other := by
        rintro rfl
        exact h rfl
      have hlookup (columns : List (String × Column)) :
          (columns.filter fun c => c.1 != other).lookup s = columns.lookup s := by
        induction columns with
        | nil => rfl
        | cons c columns ih =>
            by_cases hc : c.1 = other
            · rw [List.filter_cons_of_neg (by simp [hc]), ih, List.lookup_cons,
                beq_eq_false_iff_ne.mpr (hc ▸ hne)]
            · rw [List.filter_cons_of_pos (by simpa using hc), List.lookup_cons, List.lookup_cons, ih]
      have hcolumn : (t.without other).column? s = t.column? s := hlookup t.columns
      rw [find, find, hcolumn]
  | _ => rfl

/-! ## Loading -/

theorem foldl_takeSeen (cells : List Datum) (seen : List (Option Key × Datum)) (count : ℕ) :
    count ≤ (cells.foldl takeSeen (seen, count)).2 ∧
      ((cells.foldl takeSeen (seen, count)).2 = count → (cells.filterMap Datum.key?).Nodup ∧
        ∀ k ∈ cells.filterMap Datum.key?, ∀ e ∈ seen, e.1 ≠ some k) := by
  induction cells generalizing seen count with
  | nil => simp
  | cons d cells ih =>
      rw [List.foldl_cons, takeSeen]
      split_ifs with hseen
      · obtain ⟨hle, -⟩ := ih seen (count + 1)
        exact ⟨by omega, fun heq => by omega⟩
      · obtain ⟨hle, hfresh⟩ := ih ((d.key?, d) :: seen) count
        refine ⟨hle, fun heq => ?_⟩
        obtain ⟨hnodup, hapart⟩ := hfresh heq
        cases hkey : d.key? with
        | none =>
            rw [List.filterMap_cons_none hkey]
            exact ⟨hnodup, fun k hk e he => hapart k hk e (List.mem_cons_of_mem _ he)⟩
        | some key =>
            rw [List.filterMap_cons_some hkey, List.nodup_cons]
            refine ⟨⟨fun hmem => ?_, hnodup⟩, fun k hk e he => ?_⟩
            · exact hapart key hmem (d.key?, d) List.mem_cons_self hkey
            · rcases List.mem_cons.mp hk with rfl | hk
              · intro hsame
                apply hseen
                rw [List.any_eq_true]
                exact ⟨e, he, by simp [hsame, hkey]⟩
              · exact hapart k hk e (List.mem_cons_of_mem _ he)

/-- Where nothing is repeated, the keys differ. -/
theorem nodup_of_repetitions {cells : List Datum} (h : repetitions cells = 0) :
    (cells.filterMap Datum.key?).Nodup :=
  ((foldl_takeSeen cells [] 0).2 h).1

/-- A table that is checked has every column that the schema names, and different identifiers. -/
theorem checked {t : Table} {path : Path} {s : Schema} (h : t.check path s = .ok ()) :
    (∀ name ∈ required s, ∃ title column, t.find name = .ok (title, column)) ∧
      ∀ title ids, t.find s.idColumn = .ok (title, ids) → (ids.cells.filterMap Datum.key?).Nodup := by
  rw [check] at h
  split at h
  · cases h
  dsimp only at h
  split at h
  · cases h
  rename_i hpresent
  obtain ⟨⟨title, ids⟩, hfind, hids⟩ := bind_eq_ok_iff.mp h
  refine ⟨fun name hname => ?_, fun other column hother => ?_⟩
  · cases hfound : t.find name with
    | ok found => exact ⟨found.1, found.2, rfl⟩
    | error failure =>
        have habsent : name ∈ (required s).filter fun name => !t.has name := by
          rw [List.mem_filter, has, hfound]
          exact ⟨hname, rfl⟩
        cases hlist : (required s).filter fun name => !t.has name with
        | nil =>
            rw [hlist] at habsent
            cases habsent
        | cons first rest =>
            rw [hlist] at hpresent
            exact absurd rfl hpresent
  · cases hfind.symm.trans hother
    dsimp only at hids
    split at hids
    · cases hids
    · rename_i hzero
      exact nodup_of_repetitions (by simpa using hzero)

/-- What is known of a table that is loaded. -/
theorem exists_of_load {files : Files.Tree} {s : Schema} {t : Table} {entries : Journal}
    (h : load files s = .ok (t, entries)) :
    ∃ node, files.find s.dataPath = .ok node ∧ ofFile s.dataPath node = .ok t ∧
      t.check s.dataPath s = .ok () := by
  rw [load] at h
  dsimp only at h
  split at h
  · cases h
  · obtain ⟨node, hnode, h⟩ := bind_eq_ok_iff.mp h
    obtain ⟨table, htable, h⟩ := bind_eq_ok_iff.mp h
    obtain ⟨⟨⟩, hcheck, h⟩ := bind_eq_ok_iff.mp h
    cases h
    exact ⟨node, hnode, htable, hcheck⟩

/-- A loaded table is rectangular, if it is so in a file of columns. -/
theorem rectangular_of_load {files : Files.Tree} {s : Schema} {t : Table} {entries : Journal}
    (h : load files s = .ok (t, entries))
    (hcolumns : ∀ table, files.find s.dataPath = .ok (.table table) → table.Rectangular) :
    t.Rectangular := by
  obtain ⟨node, hnode, htable, -⟩ := exists_of_load h
  unfold ofFile at htable
  split at htable
  · cases htable
    exact hcolumns _ hnode
  · exact rectangular_of_ofText htable
  · cases htable
  · cases htable

end Table

end RankingEval
