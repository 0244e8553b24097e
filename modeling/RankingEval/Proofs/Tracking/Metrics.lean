/-
# The areas that reach the service

Areas are handed to the service under keys, and a key is made from a name by replacing every character that
may not stand in it. Two names may so get one key, and then only the area that comes later arrives. Under the
keys that are there, each area is the one of the last ranking with that key; nothing is lost exactly if the
keys differ, as they do if every name is fit to stand in a key as it is.
-/

import RankingEval.Proofs.Tracking.Lifecycle

namespace RankingEval.Tracking

/-! ## Keys -/

theorem metricKey_eq_iff (name other : String) :
    metricKey name = metricKey other ↔
      name.toList.map (fun c => if isKeyChar c then c else '_') =
        other.toList.map fun c => if isKeyChar c then c else '_' := by
  rw [metricKey, metricKey, String.append_right_inj, ← String.toList_inj, String.toList_map,
    String.toList_map]

/-- A name that is fit for a key keeps its characters. -/
theorem metricKey_inj {name other : String} (hname : ∀ c ∈ name.toList, isKeyChar c = true)
    (hother : ∀ c ∈ other.toList, isKeyChar c = true) (h : metricKey name = metricKey other) :
    name = other := by
  have hkept : ∀ {s : String}, (∀ c ∈ s.toList, isKeyChar c = true) →
      s.toList.map (fun c => if isKeyChar c then c else '_') = s.toList := by
    intro s hs
    exact (List.map_congr_left fun c hc => if_pos (hs c hc)).trans (List.map_id _)
  rw [metricKey_eq_iff, hkept hname, hkept hother] at h
  exact String.toList_inj.mp h

/-- The key under which the area of an entry is noted. -/
def entryKey (entry : Ranking × Nat) : String := metricKey entry.1.name

/-! ## Metrics -/

/-- The metrics keep one area for each key, the one that comes last. -/
theorem areaMetrics_eq_latest (areas : List (String × Float)) :
    areaMetrics areas =
      Keyed.latest (·.1) (areas.map fun area => (metricKey area.1, Datum.float area.2)) := by
  rw [← Keyed.foldl_put, List.foldl_map]
  rfl

variable {s : Evaluation.State}

/-- If every entry has an area and no name comes twice, the summary lists the area of each entry. -/
theorem exists_summary (hnames : (s.store.entries.map (·.1.name)).Nodup)
    (hareas : ∀ entry ∈ s.store.entries, (s.curve entry.2).readArea.value.isOk = true) :
    ∃ areas, (Evaluation.summary.run.run s).1 = .ok areas ∧
      List.Forall₂ (fun entry area => Evaluation.namedArea s entry = .ok area) s.store.entries areas := by
  have hisOk : (s.store.entries.mapM (Evaluation.namedArea s)).isOk = true := by
    rw [isOk_mapM, List.all_eq_true]
    intro entry hentry
    rw [Evaluation.namedArea, isOk_map]
    exact hareas entry hentry
  rw [(Evaluation.reads_summary s s (.refl s)).1]
  cases hvalues : s.store.entries.mapM (Evaluation.namedArea s) with
  | error failure =>
      rw [hvalues] at hisOk
      cases hisOk
  | ok areas =>
      have hall := mapM_eq_ok_iff.mp hvalues
      have hkeys : areas.map (·.1) = s.store.entries.map (·.1.name) := by
        refine Keyed.map_eq_of_forall₂ hall fun entry area harea => ?_
        obtain ⟨value, -, rfl⟩ := (Evaluation.namedArea_eq_ok_iff s).mp harea
        rfl
      refine ⟨areas, ?_, hall⟩
      change Except.ok (Keyed.latest (·.1) areas) = _
      rw [Keyed.latest_of_nodup _ _ (hkeys ▸ hnames)]

/-- What the metrics of some results keep: one area for each key, of the last ranking that has the key. -/
structure Keeps (s : Evaluation.State) (metrics : Fields) : Prop where
  /-- The keys stand in the order of the first rankings that have them. -/
  keys : metrics.map (·.1) = (s.store.entries.map entryKey).eraseDups
  /-- The last ranking with a key gives the area. -/
  last : ∀ key entry, Keyed.last? entryKey s.store.entries key = some entry →
    ∃ area, (s.curve entry.2).readArea.value = .ok area ∧ (key, .float area) ∈ metrics
  /-- There are as many metrics as results exactly if no key comes twice. -/
  length_eq_iff : metrics.length = s.store.size ↔ (s.store.entries.map entryKey).Nodup
  /-- Then the area of every ranking is there. -/
  all : (s.store.entries.map entryKey).Nodup → ∀ entry ∈ s.store.entries,
    ∃ area, (s.curve entry.2).readArea.value = .ok area ∧ (entryKey entry, .float area) ∈ metrics

theorem areaMetrics_keeps {areas : List (String × Float)}
    (h : List.Forall₂ (fun entry area => Evaluation.namedArea s entry = .ok area) s.store.entries areas) :
    Keeps s (areaMetrics areas) := by
  let value (entry : Ranking × Nat) (field : String × Datum) : Prop :=
    ∃ area, (s.curve entry.2).readArea.value = .ok area ∧ field = (entryKey entry, .float area)
  have hvalues : List.Forall₂ value s.store.entries
      (areas.map fun area => (metricKey area.1, Datum.float area.2)) := by
    refine List.forall₂_map_right_iff.mpr (h.imp fun entry named hnamed => ?_)
    obtain ⟨area, harea, rfl⟩ := (Evaluation.namedArea_eq_ok_iff s).mp hnamed
    exact ⟨area, harea, rfl⟩
  have hkey : ∀ entry field, value entry field → field.1 = entryKey entry := by
    rintro entry field ⟨area, -, rfl⟩
    rfl
  have hkeys : (areaMetrics areas).map (·.1) = (s.store.entries.map entryKey).eraseDups := by
    rw [areaMetrics_eq_latest, Keyed.map_key_latest, Keyed.map_eq_of_forall₂ hvalues hkey]
  have hlast : ∀ key entry, Keyed.last? entryKey s.store.entries key = some entry →
      ∃ area, (s.curve entry.2).readArea.value = .ok area ∧
        (key, .float area) ∈ areaMetrics areas := by
    intro key entry hentry
    obtain ⟨field, ⟨area, harea, rfl⟩, hfield⟩ := Keyed.exists_last?_of_forall₂ hvalues hkey hentry
    obtain rfl := Keyed.key_of_last?_eq_some hentry
    refine ⟨area, harea, ?_⟩
    rw [areaMetrics_eq_latest]
    exact (Keyed.mem_latest_iff _ _).mpr hfield
  refine ⟨hkeys, hlast, ?_, fun hnodup entry hentry => hlast _ _ (Keyed.last?_of_nodup hnodup hentry)⟩
  have hlength := congrArg List.length hkeys
  rw [List.length_map] at hlength
  rw [hlength, Store.size, ← Keyed.length_eraseDups_eq_iff, List.length_map]

/-- If every ranking has an area and no name comes twice, the metrics that are handed over keep one area for
each key. None is lost if the keys differ, and they differ if every name is fit for a key. -/
theorem logged_areas (w : World) (file : Datum)
    (hnames : (w.evaluation.store.entries.map (·.1.name)).Nodup)
    (hareas : ∀ entry ∈ w.evaluation.store.entries,
      (w.evaluation.curve entry.2).readArea.value.isOk = true) :
    ∃ metrics text, ((logCurves file).run.run w).1 = .ok () ∧
      ((logCurves file).run.run w).2.service.calls =
        w.service.calls ++ [.logMetrics metrics .missing, .logText text file] ∧
      Keeps w.evaluation metrics ∧
      ((∀ entry ∈ w.evaluation.store.entries, ∀ c ∈ entry.1.name.toList, isKeyChar c = true) →
        (w.evaluation.store.entries.map entryKey).Nodup) := by
  obtain ⟨areas, hsummary, hall⟩ := exists_summary hnames hareas
  obtain ⟨text, -, hok, hcalls, -⟩ := run_logCurves w file hsummary
  refine ⟨areaMetrics areas, text, hok, hcalls, areaMetrics_keeps hall, fun hfit => ?_⟩
  have hkeys : w.evaluation.store.entries.map entryKey =
      (w.evaluation.store.entries.map (·.1.name)).map metricKey := by
    rw [List.map_map]
    rfl
  rw [hkeys]
  refine List.Nodup.map_on ?_ hnames
  simp only [List.mem_map]
  rintro _ ⟨entry, hentry, rfl⟩ _ ⟨other, hother, rfl⟩ hsame
  exact metricKey_inj (hfit entry hentry) (hfit other hother) hsame

/-- A world with the results of two rankings whose areas are known. -/
def worldOfTwo (name other : String) (area otherArea : Float) : World where
  evaluation :=
    { shelf := #[{ RecallCurve.ofSize 2 with area? := some area },
        { RecallCurve.ofSize 2 with area? := some otherArea }]
      store := ⟨[(.order ⟨.made 0, name, []⟩, 0), (.order ⟨.made 1, other, []⟩, 1)]⟩ }
  files := ⟨"/home", []⟩

theorem isOk_area_worldOfTwo {name other : String} {area otherArea : Float} :
    ∀ entry ∈ (worldOfTwo name other area otherArea).evaluation.store.entries,
      ((worldOfTwo name other area otherArea).evaluation.curve entry.2).readArea.value.isOk = true := by
  intro entry hentry
  rcases List.mem_pair.mp hentry with rfl | rfl <;> rfl

theorem logged_areas_of_two :
    let w := worldOfTwo "by distance" "by density" 0.5 0.25
    ∃ metrics text, ((logCurves curvesFile).run.run w).1 = .ok () ∧
      ((logCurves curvesFile).run.run w).2.service.calls =
        w.service.calls ++ [.logMetrics metrics .missing, .logText text curvesFile] ∧
      Keeps w.evaluation metrics ∧
      ((∀ entry ∈ w.evaluation.store.entries, ∀ c ∈ entry.1.name.toList, isKeyChar c = true) →
        (w.evaluation.store.entries.map entryKey).Nodup) :=
  logged_areas (worldOfTwo "by distance" "by density" 0.5 0.25) curvesFile (by decide)
    isOk_area_worldOfTwo

/-- A colon may not stand in a key and a low line may, so "a:b" and "a_b" share one key, and the area of the
first ranking is lost. -/
theorem not_every_area_is_logged :
    ¬ ∀ (w : World) (file : Datum), (w.evaluation.store.entries.map (·.1.name)).Nodup →
      (∀ entry ∈ w.evaluation.store.entries,
        (w.evaluation.curve entry.2).readArea.value.isOk = true) →
      ∃ metrics text, ((logCurves file).run.run w).2.service.calls =
          w.service.calls ++ [.logMetrics metrics .missing, .logText text file] ∧
        metrics.length = w.evaluation.store.size ∧
        ∀ entry ∈ w.evaluation.store.entries,
          ∃ area, (w.evaluation.curve entry.2).readArea.value = .ok area ∧
            (entryKey entry, .float area) ∈ metrics := by
  intro h
  let w := worldOfTwo "a:b" "a_b" 0.5 0.0
  have hnames : (w.evaluation.store.entries.map (·.1.name)).Nodup := by decide
  obtain ⟨metrics, text, hcalls, hlength, -⟩ := h w curvesFile hnames isOk_area_worldOfTwo
  obtain ⟨areas, hsummary, hall⟩ := exists_summary hnames isOk_area_worldOfTwo
  obtain ⟨_, -, -, hmade, -⟩ := run_logCurves w curvesFile hsummary
  have hsame := List.append_cancel_left (hcalls.symm.trans hmade)
  obtain rfl : metrics = areaMetrics areas := by
    simp only [List.cons.injEq, Call.logMetrics.injEq] at hsame
    exact hsame.1.1
  have hnodup := (areaMetrics_keeps hall).length_eq_iff.mp hlength
  have hkey : metricKey "a:b" = metricKey "a_b" := by
    rw [metricKey_eq_iff]
    decide
  exact (List.nodup_cons.mp hnodup).1 (List.mem_singleton.mpr hkey)

end RankingEval.Tracking
