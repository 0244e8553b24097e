/-
# From a table to its curves

The labels of a table choose the positives, and its columns rank all rows. As both name the rows by the same
different identifiers, every ranking has a curve, and every curve ends at full recall with the share of the
positives among all rows.
-/

import Mathlib
import RankingEval.Proofs.Evaluation.EachOnce
import RankingEval.Proofs.Evaluation.Readings
import RankingEval.Proofs.Table.Matching
import RankingEval.Proofs.Table.Rankings

namespace RankingEval

open RankingEval.Number RankingEval.Ranking RankingEval.Curve

/-! ## Where curves end -/

namespace Ranking

variable {ids chosen : List Identity} {r : Ranking}

theorem identified_of_perm (hkeyed : ∀ id ∈ ids, ∃ k, id = .keyed k) (different : AllDifferent ids)
    (hr : r.identities.Perm ids) : r.Identified where
  keyed id hid := hkeyed id (hr.mem_iff.mp hid)
  different := different.of_perm hr.symm

theorem countP_contains_of_sublist {part keys : List Key} (hpart : part.Sublist keys) (hkeys : keys.Nodup) :
    keys.countP (part.contains ·) = part.length := by
  rw [List.countP_eq_length_filter]
  apply List.Perm.length_eq
  rw [List.perm_ext_iff_of_nodup (hkeys.filter _) (hpart.nodup hkeys)]
  intro k
  rw [List.mem_filter, List.contains_iff_mem]
  exact ⟨And.right, fun hk => ⟨hpart.subset hk, hk⟩⟩

/-- Where some rows are chosen as the positives, the plot of a ranking of all rows ends at full recall with the
share of the chosen rows. -/
theorem getLast?_plot (hkeyed : ∀ id ∈ ids, ∃ k, id = .keyed k) (different : AllDifferent ids)
    (hr : r.identities.Perm ids) (hchosen : chosen.Sublist ids) :
    (r.plot (.set (chosen.filterMap Identity.key?) 0)).points.getLast? =
      some ⟨1, countQuotient chosen.length ids.length⟩ := by
  let keys := chosen.filterMap Identity.key?
  obtain ⟨looked, scores, hperm, hlooked, -⟩ :=
    (identified_of_perm hkeyed different hr).looked (.set keys 0)
  have hsame : looked.Perm ids := hperm.trans hr
  have hlength : (r.items (.set keys 0)).length = ids.length :=
    (length_of_looked hlooked).trans hsame.length_eq
  have hcount : (r.items (.set keys 0)).countP (·.positive) = chosen.length := by
    calc (r.items (.set keys 0)).countP (·.positive)
        = (looked.filterMap Identity.key?).countP (keys.contains ·) := countP_positive hlooked
      _ = (ids.filterMap Identity.key?).countP (keys.contains ·) := (hsame.filterMap _).countP_eq _
      _ = keys.length := countP_contains_of_sublist (hchosen.filterMap _) different
      _ = (keys.map Identity.keyed).length := List.length_map _ |>.symm
      _ = chosen.length := by rw [map_keyed fun id hid => hkeyed id (hchosen.subset hid)]
  rw [plot, getLast?_blockCurve, hcount, hlength]
  rfl

end Ranking

/-! ## What an evaluation stores -/

namespace Evaluation

/-- Every ranking of a list was given its curve, and all curves end at one point. The rankings stand in order
behind what was in the store, and nothing gave reason for a warning. -/
structure Charted (positives : Positives) (rankings : List Ranking) (last : Point Float)
    (before after : State) : Prop where
  entries : after.store.entries = before.store.entries ++ rankings.zipIdx before.shelf.size
  curves : ∀ entry ∈ rankings.zipIdx before.shelf.size, ∃ curve log,
    entry.1.curve positives = .ok (curve, log) ∧ (after.curve entry.2).curve = curve.curve ∧
      curve.points.getLast? = some last
  unwarned : after.journal.filter (·.level = .warning) = before.journal.filter (·.level = .warning)

variable {positives : Positives} {rankings : List Ranking} {before after : State}

theorem mem_of_mem_zipIdx {entry : Ranking × ℕ} {start : ℕ} (h : entry ∈ rankings.zipIdx start) :
    entry.1 ∈ rankings := by
  have hfirst := List.mem_map_of_mem (f := Prod.fst) h
  rwa [List.zipIdx_map_fst] at hfirst

/-- The curve of a recorded ranking stands at its place. -/
theorem Recorded.curve_eq (h : Recorded positives rankings before after) {entry : Ranking × ℕ}
    (hentry : entry ∈ rankings.zipIdx before.shelf.size) :
    after.curve entry.2 = keptCurve positives entry.1 := by
  obtain ⟨r, place⟩ := entry
  obtain ⟨hle, hr⟩ := List.mk_mem_zipIdx_iff_le_and_getElem?_sub.mp hentry
  rw [State.curve, h.shelf, Array.getD_eq_getD_getElem?, Array.getElem?_append_right hle]
  simp [hr]

/-- Fresh rankings that are recorded come behind what was in the store. -/
theorem Recorded.entries_of_fresh (h : Recorded positives rankings before after)
    (hfresh : ∀ r ∈ rankings, before.store.contains r = false) :
    after.store.entries = before.store.entries ++ rankings.zipIdx before.shelf.size := by
  have hkept : before.store.entries.map (Store.renewed (rankings.zipIdx before.shelf.size)) =
      before.store.entries := by
    conv_rhs => rw [← List.map_id before.store.entries]
    apply List.map_congr_left
    intro entry hentry
    apply Store.renewed_of_forall_ne
    intro result hresult hsame
    have habsent := List.any_eq_false.mp (hfresh result.1 (mem_of_mem_zipIdx hresult)) entry hentry
    exact habsent (beq_iff_eq.mpr hsame.symm)
  have hnew : ((rankings.zipIdx before.shelf.size).filter fun entry => !before.store.contains entry.1) =
      rankings.zipIdx before.shelf.size := by
    apply List.filter_eq_self.mpr
    intro entry hentry
    rw [hfresh entry.1 (mem_of_mem_zipIdx hentry)]
    rfl
  rw [h.entries, hkept, hnew]

theorem Recorded.unwarned_of_fresh (h : Recorded positives rankings before after)
    (hfresh : ∀ r ∈ rankings, before.store.contains r = false) :
    after.journal.filter (·.level = .warning) = before.journal.filter (·.level = .warning) := by
  have hnone : (rankings.filter fun r => before.store.contains r) = [] := by
    apply List.filter_eq_nil_iff.mpr
    intro r hr
    rw [hfresh r hr]
    exact Bool.false_ne_true
  rw [h.warnings, hnone, List.map_nil, List.append_nil]

/-- Fresh rankings that are recorded are charted, if their plots end at one point. -/
theorem Recorded.charted {keys : List Key} {last : Point Float}
    (h : Recorded (.set keys 0) rankings before after)
    (hfresh : ∀ r ∈ rankings, before.store.contains r = false)
    (hpositives : (Positives.set keys 0).count ≠ 0)
    (hidentified : ∀ r ∈ rankings, r.Identified ∧ r.identities ≠ [])
    (hlast : ∀ r ∈ rankings, (r.plot (.set keys 0)).points.getLast? = some last) :
    Charted (.set keys 0) rankings last before after where
  entries := h.entries_of_fresh hfresh
  unwarned := h.unwarned_of_fresh hfresh
  curves entry hentry := by
    have hr := mem_of_mem_zipIdx hentry
    obtain ⟨identified, hids⟩ := hidentified _ hr
    have hcurve := identified.curve_eq (.set keys 0)
    rw [if_neg hpositives, if_neg hids] at hcurve
    refine ⟨_, _, hcurve, ?_, hlast _ hr⟩
    rw [h.curve_eq hentry, keptCurve, RecallCurve.curve_readArea]

variable {labels : Labels} {pattern : String} {compiled : Pattern.Compiled}

/-- Rankings of all rows are charted, if the label of some row passes. -/
theorem exists_charted (hkeyed : ∀ id ∈ labels.map (·.id.identity), ∃ k, id = .keyed k)
    (different : AllDifferent (labels.map (·.id.identity))) (hlabels : ∀ l ∈ labels, l.label.isSome = true)
    (hranked : ∀ r ∈ rankings, r.identities.Perm (labels.map (·.id.identity)))
    (hagenda : agenda rankings = rankings) (apart : (rankings.map handle).Nodup)
    (hcompile : Pattern.compile {} pattern = .ok compiled)
    (hsome : labels.countP (Labelled.passes compiled.occursIn) ≠ 0)
    (hfresh : ∀ r ∈ rankings, before.store.contains r = false) :
    ∃ positives after,
      Positives.ofIdentities ((labels.filter (Labelled.passes compiled.occursIn)).map (·.id.identity)) =
          .ok positives ∧
        (evaluate pattern labels rankings).run.run before = (.ok (), after) ∧
        Charted positives rankings
          ⟨1, countQuotient (labels.countP (Labelled.passes compiled.occursIn)) labels.length⟩ before after := by
  let passing := labels.filter (Labelled.passes compiled.occursIn)
  let chosen := passing.map (·.id.identity)
  have hchosen : chosen.Sublist (labels.map (·.id.identity)) := List.filter_sublist.map _
  have hkeys : ∀ id ∈ chosen, ∃ k, id = .keyed k := fun id hid => hkeyed id (hchosen.subset hid)
  have hset := Positives.ofIdentities_of_different hkeys (different.sublist hchosen)
  have hlength : chosen.length = labels.countP (Labelled.passes compiled.occursIn) := by
    rw [List.countP_eq_length_filter, List.length_map]
  have hpositives : (Positives.set (chosen.filterMap Identity.key?) 0).count ≠ 0 := by
    rw [← hlength, ← map_keyed hkeys, List.length_map] at hsome
    exact hsome
  have hmatched : labels.matchingPattern {} (.text pattern) = .ok (passing.map (·.id)) := by
    rw [Labels.matchingPattern, hcompile]
    exact Labels.matching_of_different (fun l hl => hkeyed _ (List.mem_map_of_mem hl)) different hlabels _
  have hmatches : passing.map (·.id) ≠ [] := by
    intro hnil
    apply hsome
    rw [← hlength, List.length_map, List.map_eq_nil_iff.mp hnil, List.length_nil]
  have hidentified : ∀ r ∈ rankings, r.Identified ∧ r.identities ≠ [] := by
    intro r hr
    refine ⟨identified_of_perm hkeyed different (hranked r hr), fun hnil => hsome ?_⟩
    have hrows := (hnil ▸ hranked r hr).nil_eq
    rw [List.map_eq_nil_iff.mp hrows.symm, List.countP_nil]
  have hlast : ∀ r ∈ rankings,
      (r.plot (.set (chosen.filterMap Identity.key?) 0)).points.getLast? =
        some ⟨1, countQuotient (labels.countP (Labelled.passes compiled.occursIn)) labels.length⟩ := by
    intro r hr
    rw [getLast?_plot hkeyed different (hranked r hr) hchosen, hlength, List.length_map]
  have hrun := run_evaluate before hmatched hmatches ((congrArg _ (List.map_map ..)).trans hset) rankings
  have hall := run_forM_append hidentified hpositives [] before
  rw [hagenda] at hrun
  rw [List.append_nil] at hall
  have hrecorded := recorded_foldl (.set (chosen.filterMap Identity.key?) 0) apart before
  exact ⟨_, _, hset, hrun.trans hall, hrecorded.charted hfresh hpositives hidentified hlast⟩

end Evaluation

/-! ## From a table to its curves -/

namespace Labels

variable {ids : Column} {texts : List (Option String)}

theorem map_id_ofTexts (h : texts.length = ids.size) :
    (ofTexts ids texts).map (·.id.identity) = ids.identifiers.map (·.identity) := by
  have hfirsts : (ids.identifiers.zip texts).map Prod.fst = ids.identifiers :=
    List.map_fst_zip ((Table.length_identifiers ids).trans h.symm).le
  conv_rhs => rw [← hfirsts, List.map_map]
  rw [ofTexts, List.map_map]
  rfl

theorem map_label_ofTexts (h : texts.length = ids.size) : (ofTexts ids texts).map (·.label) = texts := by
  have hseconds : (ids.identifiers.zip texts).map Prod.snd = texts :=
    List.map_snd_zip ((Table.length_identifiers ids).trans h.symm).ge
  conv_rhs => rw [← hseconds]
  rw [ofTexts, List.map_map]
  rfl

theorem countP_ofTexts (h : texts.length = ids.size) (test : String → Bool) :
    (ofTexts ids texts).countP (Labelled.passes test) = texts.countP (·.any test) := by
  conv_rhs => rw [← map_label_ofTexts h, List.countP_map]
  rfl

end Labels

namespace Table

open RankingEval.Evaluation

variable {t : Table} {s : Schema} {ids labelled : Column} {scored ordered : List Ranking}

theorem isSome_of_mem_texts (h : ∀ cell ∈ labelled.cells, cell.isMissing = false) :
    ∀ text ∈ labelled.texts, text.isSome = true := by
  rw [Column.texts, List.forall_mem_map]
  intro cell hcell
  rw [Column.textOf, h cell hcell]
  rfl

theorem ScoredBy.name_eq {name : Datum} {r : Ranking} (h : ScoredBy t s ids name r) :
    name = .text r.name := by
  obtain ⟨title, column, values, scoring, places, -, -, -, rfl, hname, -⟩ := h
  exact hname

theorem OrderedBy.name_eq {name : Datum} {r : Ranking} (h : OrderedBy t ids name r) :
    name = .text r.name := by
  obtain ⟨title, column, order, places, -, -, rfl, hname, -⟩ := h
  exact hname

namespace Yields

variable (h : t.Yields s ids labelled scored ordered)

include h

/-- The rankings have the names of their columns. -/
theorem map_name :
    (scored ++ ordered).map (fun r => Datum.text r.name) = s.scoreColumns ++ s.orderingColumns := by
  rw [List.map_append]
  congr 1
  · apply List.forall₂_eq_eq_eq.le
    rw [List.forall₂_map_left_iff]
    exact h.byScores.flip.imp fun r name hr => (ScoredBy.name_eq hr).symm
  · apply List.forall₂_eq_eq_eq.le
    rw [List.forall₂_map_left_iff]
    exact h.byPositions.flip.imp fun r name hr => (OrderedBy.name_eq hr).symm

theorem forall_mem {P : Ranking → Prop} (hscored : ∀ name r, t.ScoredBy s ids name r → P r)
    (hordered : ∀ name r, t.OrderedBy ids name r → P r) : ∀ r ∈ scored ++ ordered, P r := by
  rw [List.forall_mem_append]
  constructor
  · have hall := h.byScores.flip.imp fun r name hr => And.intro (hscored name r hr) hr
    exact ((List.forall₂_and_left _ _).mp hall).1
  · have hall := h.byPositions.flip.imp fun r name hr => And.intro (hordered name r hr) hr
    exact ((List.forall₂_and_left _ _).mp hall).1

theorem ranked_perm : ∀ r ∈ scored ++ ordered, r.ranked.Perm ids.identifiers :=
  h.forall_mem (fun _ _ hr => hr.ranked_perm) fun _ _ hr => hr.ranked_perm

theorem identities_perm : ∀ r ∈ scored ++ ordered, r.identities.Perm (ids.identifiers.map (·.identity)) :=
  h.forall_mem (fun _ _ hr => .of_eq hr.identities) fun _ _ hr => hr.identities

theorem nodup : ((scored ++ ordered).map handle).Nodup := by
  rw [h.numbered]
  exact List.nodup_range.map fun a b hab => Handle.made.inj hab

theorem agenda_eq : agenda (scored ++ ordered) = scored ++ ordered := by
  apply agenda_append h.scorings h.orders _ h.nodup
  intro r hr number
  have hmem := List.mem_map_of_mem (f := handle) (List.mem_append_right scored hr)
  rw [h.numbered] at hmem
  obtain ⟨made, -, hmade⟩ := List.mem_map.mp hmem
  rw [← hmade]
  exact Handle.noConfusion

end Yields

/-- From a table to its curves nothing is lost. A loaded table that is fit for its schema yields one ranking for
each score column and then one for each ordering column, under the names of these columns. Each of them ranks all
identifiers as its column arranges the rows. Where the identifiers have keys and the labels of some rows match,
every ranking is given one curve, in order and without a warning, and all curves end at full recall with the share
of the matching rows. -/
theorem charted_of_load {files : Files.Tree} {log : Journal} (hload : load files s = .ok (t, log))
    (hcolumns : ∀ table, files.find s.dataPath = .ok (.table table) → table.Rectangular) (hfits : t.Fits s) :
    ∃ ids labelled scored ordered, t.Yields s ids labelled scored ordered ∧
      (scored ++ ordered).map (fun r => Datum.text r.name) = s.scoreColumns ++ s.orderingColumns ∧
      (∀ r ∈ scored ++ ordered, r.ranked.Perm ids.identifiers) ∧
      ((∀ cell ∈ ids.cells, cell.key?.isSome = true) →
        ∀ pattern compiled, Pattern.compile {} pattern = .ok compiled →
        labelled.texts.countP (·.any compiled.occursIn) ≠ 0 →
        ∀ before : State, (∀ r ∈ scored ++ ordered, before.store.contains r = false) →
          let labels := Labels.ofTexts ids labelled.texts
          ∃ positives after,
            Positives.ofIdentities
                ((labels.filter (Labelled.passes compiled.occursIn)).map (·.id.identity)) = .ok positives ∧
              (evaluate pattern labels (scored ++ ordered)).run.run before = (.ok (), after) ∧
              Charted positives (scored ++ ordered)
                ⟨1, countQuotient (labelled.texts.countP (·.any compiled.occursIn)) ids.size⟩ before after) := by
  obtain ⟨node, -, -, hcheck⟩ := exists_of_load hload
  obtain ⟨hfound, hdifferent⟩ := checked hcheck
  obtain ⟨ids, labelled, scored, ordered, hyields⟩ :=
    exists_yields (rectangular_of_load hload hcolumns) hfits hfound
  obtain ⟨idTitle, hids⟩ := hyields.foundIds
  obtain ⟨labelTitle, hlabelled⟩ := hyields.foundLabels
  have hpresent := hfits.identifiers _ _ hids
  have htexts : labelled.texts.length = ids.size := (List.length_map _).trans hyields.sameSize
  refine ⟨ids, labelled, scored, ordered, hyields, hyields.map_name, hyields.ranked_perm, ?_⟩
  intro hkeys pattern compiled hcompile hsome before hfresh labels
  have hidentities : labels.map (·.id.identity) = ids.identifiers.map (·.identity) :=
    Labels.map_id_ofTexts htexts
  have hlabels : ∀ l ∈ labels, l.label.isSome = true := by
    intro l hl
    apply isSome_of_mem_texts (hfits.labels _ _ hlabelled)
    rw [← Labels.map_label_ofTexts htexts]
    exact List.mem_map_of_mem hl
  have hcount := Labels.countP_ofTexts htexts compiled.occursIn
  have hlength : labels.length = ids.size := by
    rw [← List.length_map (f := (·.label)), Labels.map_label_ofTexts htexts, htexts]
  rw [← hcount, ← hlength]
  apply exists_charted
  · rw [hidentities]
    exact Column.keyed_identities hpresent hkeys
  · rw [hidentities]
    exact Column.different_identities hpresent (hdifferent _ _ hids)
  · exact hlabels
  · rw [hidentities]
    exact hyields.identities_perm
  · exact hyields.agenda_eq
  · exact hyields.nodup
  · exact hcompile
  · rwa [hcount]
  · exact hfresh

/-- A table of three rows, two of them outliers. -/
def sampleTable : Table := .ofValues [("id", [.text "a", .text "b", .text "c"]),
  ("label", [.text "outlier", .text "inlier", .text "outlier"]), ("score", [.int 3, .int 5, .int 3]),
  ("position", [.int 2, .int 1, .int 3])]

def sampleSchema : Schema :=
  ⟨⟨"", ["t.parquet"]⟩, .text "id", .text "label", [.text "score"], [], [.text "position"]⟩

def sampleFiles : Files.Tree := ⟨"/home", [(["t.parquet"], .table sampleTable)]⟩

theorem fits_sampleTable : sampleTable.Fits sampleSchema where
  alone := by simp [sampleSchema]
  identifiers title column h := by
    cases h
    decide
  labels title column h := by
    cases h
    decide
  scores name hname title column h := by
    obtain rfl := List.mem_singleton.mp hname
    cases h
    decide +kernel
  positions name hname title column h := by
    obtain rfl := List.mem_singleton.mp hname
    cases h
    decide

/-- Two of three rows match, so that both curves end at a precision of two thirds. -/
theorem charted_of_load_two_of_three :
    ∃ ids labelled scored ordered positives after,
      sampleTable.Yields sampleSchema ids labelled scored ordered ∧
        (scored ++ ordered).map (fun r => Datum.text r.name) = [.text "score", .text "position"] ∧
        (evaluate "out" (.ofTexts ids labelled.texts) (scored ++ ordered)).run.run {} = (.ok (), after) ∧
        Charted positives (scored ++ ordered) ⟨1, countQuotient 2 3⟩ {} after := by
  have hload : ∃ log, load sampleFiles sampleSchema = .ok (sampleTable, log) := ⟨_, rfl⟩
  obtain ⟨log, hload⟩ := hload
  obtain ⟨ids, labelled, scored, ordered, hyields, hnames, -, hcharted⟩ := charted_of_load hload
    (fun table h => by
      cases h
      decide)
    fits_sampleTable
  obtain ⟨idTitle, hids⟩ := hyields.foundIds
  obtain ⟨labelTitle, hlabelled⟩ := hyields.foundLabels
  cases hids
  cases hlabelled
  have hmatches : (Pattern.compile {} "out").toOption.any (fun compiled =>
      [some "outlier", some "inlier", some "outlier"].countP (·.any compiled.occursIn) == 2) = true := by
    decide +kernel
  obtain ⟨compiled, hcompile, hcount⟩ := exists_of_any hmatches
  have htwo := beq_iff_eq.mp hcount
  obtain ⟨positives, after, -, hrun, hafter⟩ := hcharted (by decide) "out" compiled hcompile
    (fun hnone => by
      have hzero := htwo.symm.trans hnone
      cases hzero) {} fun _ _ => rfl
  refine ⟨_, _, scored, ordered, positives, after, hyields, hnames, hrun, ?_⟩
  rw [show List.countP _ (Column.texts _) = 2 from htwo] at hafter
  exact hafter

/-- A table whose only identifier is a list. -/
def listedTable : Table := .ofValues [("id", [.list [.int 1]]), ("label", [.text "outlier"]), ("s", [.int 1])]

def listedSchema : Schema := ⟨⟨"", ["t.parquet"]⟩, .text "id", .text "label", [.text "s"], [], []⟩

def listedFiles : Files.Tree := ⟨"/home", [(["t.parquet"], .table listedTable)]⟩

theorem fits_listedTable : listedTable.Fits listedSchema where
  alone := by simp [listedSchema]
  identifiers title column h := by
    cases h
    decide
  labels title column h := by
    cases h
    decide
  scores name hname title column h := by
    obtain rfl := List.mem_singleton.mp hname
    cases h
    decide +kernel
  positions name hname := absurd hname List.not_mem_nil

/-- Lists are different as identifiers, but no set of positives takes them: the evaluation fails. -/
theorem not_every_load_is_charted :
    ¬ ∀ (files : Files.Tree) (s : Schema) (t : Table) (log : Journal), load files s = .ok (t, log) →
      (∀ table, files.find s.dataPath = .ok (.table table) → table.Rectangular) → t.Fits s →
        ∀ labels rankings, t.rankings s = .ok (labels, rankings) →
          ∀ pattern compiled, Pattern.compile {} pattern = .ok compiled →
            labels.countP (Labelled.passes compiled.occursIn) ≠ 0 →
              ∃ after, (evaluate pattern labels rankings).run.run {} = (.ok (), after) := by
  intro h
  have hload : ∃ log, load listedFiles listedSchema = .ok (listedTable, log) := ⟨_, rfl⟩
  obtain ⟨log, hload⟩ := hload
  have hcolumns : ∀ table, listedFiles.find listedSchema.dataPath = .ok (.table table) →
      table.Rectangular := by
    intro table hfind
    cases hfind
    decide
  have hmatches : (listedTable.rankings listedSchema).toOption.any (fun read =>
      (Pattern.compile {} "outlier").toOption.any fun compiled =>
        read.1.countP (Labelled.passes compiled.occursIn) == 1 &&
          !((evaluate "outlier" read.1 read.2).run.run {}).1.isOk) = true := by decide +kernel
  obtain ⟨⟨labels, rankings⟩, hrankings, hrest⟩ := exists_of_any hmatches
  obtain ⟨compiled, hcompile, hfails⟩ := exists_of_any hrest
  rw [Bool.and_eq_true, beq_iff_eq, Bool.not_eq_true'] at hfails
  obtain ⟨after, hrun⟩ := h _ _ _ log hload hcolumns fits_listedTable labels rankings hrankings "outlier"
    compiled hcompile (hfails.1.symm ▸ Nat.one_ne_zero)
  rw [hrun] at hfails
  exact Bool.noConfusion hfails.2

end Table

end RankingEval
