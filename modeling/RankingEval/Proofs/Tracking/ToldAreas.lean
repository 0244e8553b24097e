/-
# One area, wherever it is told

The area of a result is told in four places: by its curve, at the head of its block in the text, under its name in
the summary, and under a key of that name among the metrics that the service is handed. For a result whose curve
nobody extends after its evaluation, all of them tell the area under the points of the curve, whatever becomes of
other curves. The summary has room for one area under each name, though, and the metrics for one under each key,
so that there the last result tells its own.
-/

import RankingEval.Proofs.Evaluation.Faithful
import RankingEval.Proofs.Evaluation.Recording
import RankingEval.Proofs.Tracking.Metrics

namespace RankingEval.Tracking

open RankingEval.Evaluation RankingEval.Curve

/-- The entry is the last one that bears its name. -/
def IsLastNamed (s : State) (entry : Ranking × ℕ) : Prop :=
  Keyed.last? (·.1.name) s.store.entries entry.1.name = some entry

/-- No other name has the key of the entry. -/
def HasOwnKey (s : State) (entry : Ranking × ℕ) : Prop :=
  ∀ other ∈ s.store.entries, entryKey other = entryKey entry → other.1.name = entry.1.name

/-- The area under the points of an entry is what is told as its area everywhere. -/
structure Told (s : State) (entry : Ranking × ℕ) : Prop where
  /-- Its curve tells it. -/
  byCurve : (s.curve entry.2).readArea.value = (s.curve entry.2).curve.area
  /-- It heads the block of the entry in the text. -/
  byText : ∀ out, (text.run.run s).1 = .ok out → ∃ area front back, (s.curve entry.2).curve.area = .ok area ∧
    out = front ++ textOfLines (("# " ++ entry.1.name) :: RecallCurve.headLine area ::
      (s.curve entry.2).curve.lines) ++ back
  /-- The summary has it under the name of the entry. -/
  bySummary : ∀ areas, (summary.run.run s).1 = .ok areas → IsLastNamed s entry →
    ∃ area, (s.curve entry.2).curve.area = .ok area ∧ (entry.1.name, area) ∈ areas
  /-- The service is handed it under the key of the name. -/
  byMetrics : ∀ (w : World) (file : Datum), w.evaluation = s → (summary.run.run s).1.isOk = true →
    IsLastNamed s entry → HasOwnKey s entry → ∃ area metrics out, (s.curve entry.2).curve.area = .ok area ∧
      ((logCurves file).run.run w).2.service.calls =
        w.service.calls ++ [.logMetrics metrics .missing, .logText out file] ∧
      (entryKey entry, .float area) ∈ metrics

variable {s : State} {entry : Ranking × ℕ}

theorem exists_block_of_text (hentry : entry ∈ s.store.entries) (hfaithful : Faithful s entry.2) {out : String}
    (h : (text.run.run s).1 = .ok out) : ∃ area front back, (s.curve entry.2).curve.area = .ok area ∧
      out = front ++ textOfLines (("# " ++ entry.1.name) :: RecallCurve.headLine area ::
        (s.curve entry.2).curve.lines) ++ back := by
  rw [(reads_text s s (.refl s)).1] at h
  obtain ⟨blocks, hblocks, rfl⟩ := exists_of_map_eq_ok h
  obtain ⟨block, hmem, hblock⟩ := exists_of_mapM_eq_ok hblocks hentry
  rw [Evaluation.block, RecallCurve.fst_readLines, map_except_map, hfaithful] at hblock
  obtain ⟨area, harea, rfl⟩ := exists_of_map_eq_ok hblock
  obtain ⟨front, back, rfl⟩ := List.append_of_mem hmem
  refine ⟨area, String.join front, String.join back, harea, ?_⟩
  rw [String.join_append, String.join_cons, ← String.append_assoc]
  rfl

theorem exists_area_of_summary (hfaithful : Faithful s entry.2) {areas : List (String × Float)}
    (h : (summary.run.run s).1 = .ok areas) (hlast : IsLastNamed s entry) :
    ∃ area, (s.curve entry.2).curve.area = .ok area ∧ (entry.1.name, area) ∈ areas := by
  rw [(reads_summary s s (.refl s)).1] at h
  obtain ⟨area, harea, hmem⟩ := (summarizes_of_eq_ok h).area _ _ hlast
  exact ⟨area, hfaithful.symm.trans harea, hmem⟩

/-- An area of the summary is among the metrics, if no other name has its key. -/
theorem mem_areaMetrics {areas : List (String × Float)} (h : (summary.run.run s).1 = .ok areas)
    (hown : HasOwnKey s entry) {area : Float} (hmem : (entry.1.name, area) ∈ areas) :
    (entryKey entry, .float area) ∈ areaMetrics areas := by
  rw [(reads_summary s s (.refl s)).1] at h
  have hnames := (summarizes_of_eq_ok h).names
  have hnodup : (areas.map (·.1)).Nodup := hnames ▸ Keyed.nodup_eraseDups _
  let named := areas.map fun area => (metricKey area.1, Datum.float area.2)
  have hnamed : (entryKey entry, Datum.float area) ∈ named := List.mem_map.mpr ⟨_, hmem, rfl⟩
  obtain ⟨last, hlast⟩ : ∃ last, Keyed.last? Prod.fst named (entryKey entry) = some last :=
    Keyed.exists_last?_eq_some (List.mem_map_of_mem hnamed)
  obtain ⟨⟨name, found⟩, hfound, rfl⟩ := List.mem_map.mp (Keyed.mem_of_last?_eq_some hlast)
  -- the last area under the key bears the name of an entry with that key, which is the name of this one
  have hname : name ∈ s.store.entries.map (·.1.name) := by
    rw [← List.mem_eraseDups, ← hnames]
    exact List.mem_map_of_mem hfound
  obtain ⟨other, hother, rfl⟩ := List.mem_map.mp hname
  have hkey := Keyed.key_of_last?_eq_some hlast
  have hsame : other.1.name = entry.1.name := hown other hother hkey
  obtain rfl : found = area := by
    have hpair := List.inj_on_of_nodup_map hnodup hfound hmem hsame
    exact congrArg Prod.snd hpair
  rw [areaMetrics_eq_latest, Keyed.mem_latest_iff]
  rw [hsame] at hlast
  exact hlast

/-- An entry of the store whose curve is faithful is told the same everywhere. -/
theorem told_of_faithful (hentry : entry ∈ s.store.entries) (hfaithful : Faithful s entry.2) : Told s entry where
  byCurve := hfaithful
  byText _ h := exists_block_of_text hentry hfaithful h
  bySummary _ h hlast := exists_area_of_summary hfaithful h hlast
  byMetrics w file hw hok hlast hown := by
    subst hw
    obtain ⟨areas, hsummary⟩ := exists_of_isOk hok
    obtain ⟨area, harea, hmem⟩ := exists_area_of_summary hfaithful hsummary hlast
    obtain ⟨out, -, -, hcalls, -⟩ := run_logCurves w file hsummary
    exact ⟨area, areaMetrics areas, out, harea, hcalls, mem_areaMetrics hsummary hown hmem⟩

/-- However a curve is used, it remembers the first area that is obtained from it. And whatever is evaluated, read
and extended, in any order and from any state on, every result that was not in the store before and whose curve
nobody extends has one area, which is the area under the points of its curve and is told everywhere. The text and
the summary can be read as long as every result has an area. -/
theorem areas_remembered_and_told (size : ℤ) (uses : List RecallCurve.Use) (before : State) (doings : List Doing) :
    let s := doings.foldl Doing.run before
    RecallCurve.Remembers (.ofSize size) uses ∧
      (∀ entry ∈ s.store.entries, (∀ doing ∈ doings, doing.extended? ≠ some entry.2) →
        entry ∈ before.store.entries ∨ Told s entry) ∧
      ((∀ entry ∈ s.store.entries, (s.curve entry.2).readArea.value.isOk = true) ↔
        (text.run.run s).1.isOk = true ∧ (summary.run.run s).1.isOk = true) := by
  intro s
  refine ⟨RecallCurve.remembers size uses, fun entry hentry hunextended => ?_, ?_⟩
  · have hfaithfully := faithfully_foldl_run doings subset_rfl before
    have huntouched : entry.2 ∉ extendedIn doings := by
      rintro ⟨doing, hdoing, hextends⟩
      exact hunextended doing hdoing hextends
    exact (hfaithfully.fresh entry hentry huntouched).imp_right (told_of_faithful hentry)
  · rw [isOk_text_eq_isOk_summary, and_self, isOk_summary, List.all_eq_true]

/-- Two orders with one name, the second of which ranks only what the first one ranks last. -/
def twins : List Ranking :=
  [.order ⟨.made 0, "twin", [⟨.text "n", .keyed (.text "n")⟩, ⟨.text "p", .keyed (.text "p")⟩]⟩,
    .order ⟨.made 1, "twin", [⟨.text "p", .keyed (.text "p")⟩]⟩]

def twinLabels : Labels :=
  [⟨⟨.text "n", .keyed (.text "n")⟩, some "neg"⟩, ⟨⟨.text "p", .keyed (.text "p")⟩, some "pos"⟩]

/-- The results of both. -/
def twinResults : State := Doing.run {} (.evaluate "pos" twinLabels twins)

theorem entries_twinResults : twinResults.store.entries = [(twins[0], 0), (twins[1], 1)] := rfl

/-- The same results after the curve of the first order was extended. -/
def extendedTwins : State := [Doing.evaluate "pos" twinLabels twins, .add 0 (.int 2) (.int 1)].foldl Doing.run {}

/-- The summary of the results still has the area of the second order, whose curve nobody extended. -/
theorem areas_remembered_and_told_twins : ∃ areas area, (summary.run.run extendedTwins).1 = .ok areas ∧
    (extendedTwins.curve 1).curve.area = .ok area ∧ ("twin", area) ∈ areas := by
  have hread : (summary.run.run extendedTwins).1.isOk = true := by decide +kernel
  obtain ⟨areas, hareas⟩ := exists_of_isOk hread
  obtain ⟨-, htold, -⟩ :=
    areas_remembered_and_told 2 [] {} [.evaluate "pos" twinLabels twins, .add 0 (.int 2) (.int 1)]
  have hentry : (twins[1], 1) ∈ extendedTwins.store.entries := by
    have hsame : extendedTwins.store.entries = twinResults.store.entries := rfl
    simp [hsame, entries_twinResults]
  rcases htold _ hentry (by decide) with hold | htold
  · cases hold
  · obtain ⟨area, harea, hmem⟩ := htold.bySummary areas hareas rfl
    exact ⟨areas, area, hareas, harea, hmem⟩

/-- Of two rankings with one name, the summary has room for the second one only: its area is zero, and that of
the first one is not. -/
theorem not_every_area_is_told :
    ¬ ∀ (positiveClass : String) (labels : Labels) (rankings : List Ranking) (areas : List (String × Float)),
      (summary.run.run (Doing.run {} (.evaluate positiveClass labels rankings))).1 = .ok areas →
        ∀ entry ∈ (Doing.run {} (.evaluate positiveClass labels rankings)).store.entries, ∃ area,
          ((Doing.run {} (.evaluate positiveClass labels rankings)).curve entry.2).curve.area = .ok area ∧
            (entry.1.name, area) ∈ areas := by
  intro h
  have hzero : (summary.run.run twinResults).1.toOption.any (fun areas =>
      areas.all fun named => named.2 == 0) = true := by decide +kernel
  have hpositive : (twinResults.curve 0).curve.area.toOption.any (fun area => !(area == 0)) = true := by
    decide +kernel
  obtain ⟨areas, hareas, hall⟩ := exists_of_any hzero
  obtain ⟨area, harea, hsome⟩ := exists_of_any hpositive
  have hentry : (twins[0], 0) ∈ twinResults.store.entries := by simp [entries_twinResults]
  obtain ⟨told, htold, hmem⟩ := h "pos" twinLabels twins areas hareas _ hentry
  cases harea.symm.trans htold
  rw [List.all_eq_true.mp hall _ hmem] at hsome
  cases hsome

end RankingEval.Tracking
