/-
# What a history of results leaves

A store starts empty and is given one result after the other. Whatever the rankings are, and however often
each of them comes, the store holds every ranking once, where it was first added, with the result that it was
given last; rankings are told apart by their handles alone. A replacement is reported each time a ranking that
is there is added again. The text and the summary of such a store follow its entries, and the summary joins
those with one name in its turn.
-/

import RankingEval.Proofs.Evaluation.Readings
import RankingEval.Proofs.Store

namespace RankingEval

/-! ## The store -/

namespace Store

variable {γ : Type}

/-- A store holds what was added to it in turn, and answers accordingly. -/
structure Holds (adds : List (Ranking × γ)) (s : Store γ) : Prop where
  /-- Every ranking stands where it was first added, with its last result. -/
  entries : s.entries = Keyed.latest (·.1.handle) adds
  /-- No ranking stands there twice. -/
  once : (s.entries.map (·.1.handle)).Nodup
  /-- The rankings stand in the order of their first additions. -/
  order : s.entries.map (·.1.handle) = (adds.map (·.1.handle)).eraseDups
  /-- There are as many entries as different rankings were added. -/
  size : s.size = (adds.map (·.1.handle)).eraseDups.length
  /-- A ranking is in the store if it was added. -/
  contains_iff : ∀ r, s.contains r = true ↔ ∃ add ∈ adds, add.1.handle = r.handle
  /-- A ranking is in the store if it has an entry. -/
  contains_iff_entry : ∀ r, s.contains r = true ↔ ∃ entry ∈ s.entries, entry.1.handle = r.handle
  /-- The result of a ranking is the one of its entry. -/
  get?_eq_some_iff : ∀ r result,
    s.get? r = some result ↔ ∃ entry ∈ s.entries, entry.1.handle = r.handle ∧ entry.2 = result
  /-- The result of a ranking is the one that it was given last. -/
  get?_eq : ∀ r, s.get? r = (Keyed.last? (·.1.handle) adds r.handle).map (·.2)
  /-- A ranking that was never added has no result. -/
  get?_eq_none_iff : ∀ r, s.get? r = none ↔ ∀ add ∈ adds, add.1.handle ≠ r.handle

variable {s : Store γ} {adds : List (Ranking × γ)}

/-- The answers of a store follow from its entries. -/
theorem holds_of_entries_eq (h : s.entries = Keyed.latest (·.1.handle) adds) : s.Holds adds := by
  have horder : s.entries.map (·.1.handle) = (adds.map (·.1.handle)).eraseDups := by
    rw [h, Keyed.map_key_latest]
  have honce : (s.entries.map (·.1.handle)).Nodup := horder ▸ Keyed.nodup_eraseDups _
  have hentry (r : Ranking) :
      s.contains r = true ↔ ∃ entry ∈ s.entries, entry.1.handle = r.handle := by
    simp [contains]
  have hadd (r : Ranking) :
      (∃ add ∈ adds, add.1.handle = r.handle) ↔ r.handle ∈ adds.map (·.1.handle) := by
    rw [List.mem_map]
  have hget (r : Ranking) : s.get? r = (Keyed.last? (·.1.handle) adds r.handle).map (·.2) := by
    rw [get?, h, Keyed.find?_latest]
  refine ⟨h, honce, horder, ?_, fun r => ?_, hentry, fun r result => ?_, hget, fun r => ?_⟩
  · rw [size, ← horder, List.length_map]
  · rw [hentry, hadd, ← List.mem_eraseDups, ← horder, List.mem_map]
  · rw [get?, Option.map_eq_some_iff]
    constructor
    · rintro ⟨entry, hfound, hresult⟩
      have hsame := List.find?_some hfound
      exact ⟨entry, List.mem_of_find?_eq_some hfound, beq_iff_eq.mp hsame, hresult⟩
    · rintro ⟨entry, hmem, hsame, hresult⟩
      refine ⟨entry, ?_, hresult⟩
      rw [h, Keyed.find?_latest, ← hsame]
      exact (Keyed.mem_latest_iff _ _).mp (h ▸ hmem)
  · rw [hget, Option.map_eq_none_iff, Keyed.last?_eq_none_iff, ← hadd]
    simp

/-- The rankings of a history that had been added before, once for each time that this happens. -/
def repeated (adds : List (Ranking × γ)) : List Ranking :=
  (adds.zipIdx.filter fun add => (adds.take add.2).any (·.1.handle == add.1.1.handle)).map (·.1.1)

theorem repeated_concat (adds : List (Ranking × γ)) (add : Ranking × γ) :
    repeated (adds ++ [add]) =
      repeated adds ++ if adds.any (·.1.handle == add.1.handle) then [add.1] else [] := by
  have hbefore : (adds.zipIdx.filter fun other =>
        ((adds ++ [add]).take other.2).any (·.1.handle == other.1.1.handle)) =
      adds.zipIdx.filter fun other => (adds.take other.2).any (·.1.handle == other.1.1.handle) := by
    apply List.filter_congr
    rintro ⟨other, i⟩ hother
    have hi : i < adds.length := List.snd_lt_of_mem_zipIdx hother
    rw [List.take_append_of_le_length (Nat.le_of_lt hi)]
  rw [repeated, List.zipIdx_append, List.filter_append, List.map_append, hbefore, ← repeated]
  congr 1
  by_cases h : adds.any (·.1.handle == add.1.handle) = true
  · simp [h]
  · simp [h]

/-- One more result keeps the account: the store holds it too, and a replacement is reported if the ranking
had been added before. -/
theorem Holds.add (h : s.Holds adds) (add : Ranking × γ) :
    (s.add add.1 add.2).Holds (adds ++ [add]) ∧
      (repeated adds).map replacingEntry ++ s.addReport add.1 =
        (repeated (adds ++ [add])).map replacingEntry := by
  constructor
  · apply holds_of_entries_eq
    rw [entries_add, h.entries, Keyed.latest_concat]
  · have hany : s.contains add.1 = adds.any (·.1.handle == add.1.handle) := by
      rw [Bool.eq_iff_iff, h.contains_iff]
      simp
    rw [addReport, hany, repeated_concat, List.map_append]
    split_ifs <;> rfl

end Store

/-! ## Histories -/

namespace Evaluation

/-- Results that are recorded in turn, from an empty store on, are held by the store. The shelf stays as it
is, and the journal continues with the replacements. -/
theorem run_forM_record (shelf : Array (RecallCurve Float)) (journal : Journal)
    (adds : List (Ranking × Nat)) : ∃ store : Store Nat, store.Holds adds ∧
      (adds.forM fun add => record add.1 add.2).run.run ⟨shelf, .empty, journal⟩ =
        (.ok (), ⟨shelf, store, journal ++ (Store.repeated adds).map Store.replacingEntry⟩) := by
  induction adds using List.reverseRecOn with
  | nil =>
      refine ⟨.empty, Store.holds_of_entries_eq rfl, ?_⟩
      exact congrArg (fun j => (Except.ok (), State.mk shelf .empty j)) (List.append_nil journal).symm
  | append_singleton adds add ih =>
      obtain ⟨store, hholds, hrun⟩ := ih
      obtain ⟨hadd, hreport⟩ := hholds.add add
      refine ⟨_, hadd, ?_⟩
      rw [List.forM_eq_forM] at hrun ⊢
      rw [List.forM_append, run_bind_of_ok hrun, List.forM_cons, run_bind_of_ok (run_record _ _ _),
        ← hreport, ← List.append_assoc]
      rfl

variable {s : State} {areas : List (String × Float)}

/-- A summary holds every name once, where its first entry stands, and the area of its last entry. -/
structure Summarizes (s : State) (areas : List (String × Float)) : Prop where
  /-- The names stand in the order of the first entries that bear them. -/
  names : areas.map (·.1) = (s.store.entries.map (·.1.name)).eraseDups
  /-- The last entry that bears a name gives its area. -/
  area : ∀ name entry, Keyed.last? (·.1.name) s.store.entries name = some entry →
    ∃ area, (s.curve entry.2).readArea.value = .ok area ∧ (name, area) ∈ areas

theorem summarizes_of_eq_ok
    (h : (s.store.entries.mapM (namedArea s)).map (Keyed.latest (·.1)) = .ok areas) :
    Summarizes s areas := by
  cases hvalues : s.store.entries.mapM (namedArea s) with
  | error failure =>
      rw [hvalues] at h
      cases h
  | ok values =>
      rw [hvalues] at h
      cases h
      have hall := mapM_eq_ok_iff.mp hvalues
      have hnamed : ∀ (entry : Ranking × Nat) (value : String × Float),
          namedArea s entry = .ok value → value.1 = entry.1.name := by
        intro entry value hvalue
        obtain ⟨area, -, rfl⟩ := (namedArea_eq_ok_iff s).mp hvalue
        rfl
      refine ⟨?_, fun name entry hlast => ?_⟩
      · rw [Keyed.map_key_latest, Keyed.map_eq_of_forall₂ hall hnamed]
      · obtain ⟨value, hvalue, hfound⟩ := Keyed.exists_last?_of_forall₂ hall hnamed hlast
        have hname := Keyed.key_of_last?_eq_some hfound
        have hmem : value ∈ Keyed.latest (·.1) values :=
          (Keyed.mem_latest_iff _ _).mpr (hname ▸ hfound)
        obtain ⟨area, harea, rfl⟩ := (namedArea_eq_ok_iff s).mp hvalue
        exact ⟨area, harea, hname ▸ hmem⟩

/-- After any history of results the store holds every ranking once, in the order of the first additions,
with the last result of each, and it answers accordingly; each addition of a ranking that was there is
reported. From then on, however often it is read, the text is one block for each entry, and the summary is
one area for each name. -/
theorem recorded_history (shelf : Array (RecallCurve Float)) (journal : Journal)
    (adds : List (Ranking × Nat)) : ∃ after : State,
      (adds.forM fun add => record add.1 add.2).run.run ⟨shelf, .empty, journal⟩ = (.ok (), after) ∧
        after.store.Holds adds ∧ after.shelf = shelf ∧
        after.journal = journal ++ (Store.repeated adds).map Store.replacingEntry ∧
        Reads (Agrees after) text
          ((after.store.entries.mapM (block after)).map String.join) ∧
        Reads (Agrees after) summary
          ((after.store.entries.mapM (namedArea after)).map (Keyed.latest (·.1))) ∧
        ∀ areas, (summary.run.run after).1 = .ok areas → Summarizes after areas := by
  obtain ⟨store, hholds, hrun⟩ := run_forM_record shelf journal adds
  refine ⟨_, hrun, hholds, rfl, rfl, reads_text _, reads_summary _, fun areas hareas => ?_⟩
  rw [(reads_summary _ _ (.refl _)).1] at hareas
  exact summarizes_of_eq_ok hareas

end Evaluation

end RankingEval
