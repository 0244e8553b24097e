/-
# The rows that a pattern matches

Where rows have different identifiers, a pattern matches exactly the rows whose label passes, each of them
once, and they make as many positives as there are such rows.
-/

import Mathlib
import RankingEval.Proofs.Number.Intervals
import RankingEval.Proofs.Ranking.Lookup
import RankingEval.Table.Labels

namespace RankingEval

open RankingEval.Number RankingEval.Ranking

/-! ## Identities with keys -/

namespace Ranking

theorem Identity.key?_eq_some_iff {id : Identity} {k : Key} : id.key? = some k ↔ id = .keyed k := by
  cases id <;> simp [Identity.key?]

variable {ids : List Identity}

/-- Identities that have keys are those of their keys. -/
theorem map_keyed (h : ∀ id ∈ ids, ∃ k, id = .keyed k) : (ids.filterMap Identity.key?).map .keyed = ids := by
  induction ids with
  | nil => rfl
  | cons id ids ih =>
      obtain ⟨k, rfl⟩ := h id List.mem_cons_self
      have hrest := ih fun other hother => h other (List.mem_cons_of_mem _ hother)
      rw [List.filterMap_cons, Identity.key?, List.map_cons, hrest]

theorem nodup_of_different (h : ∀ id ∈ ids, ∃ k, id = .keyed k) (different : AllDifferent ids) : ids.Nodup := by
  rw [← map_keyed h]
  exact different.map fun k k' hsame => Identity.keyed.inj hsame

theorem AllDifferent.sublist {others : List Identity} (h : AllDifferent ids) (hsub : others.Sublist ids) :
    AllDifferent others :=
  (hsub.filterMap _).nodup h

/-- Different identities with keys form the set of these keys. -/
theorem Positives.ofIdentities_of_different (h : ∀ id ∈ ids, ∃ k, id = .keyed k) (different : AllDifferent ids) :
    ofIdentities ids = .ok (.set (ids.filterMap Identity.key?) 0) := by
  induction ids using List.reverseRecOn with
  | nil => rfl
  | append_singleton ids id ih =>
      obtain ⟨k, rfl⟩ := h id (List.mem_append_right _ List.mem_cons_self)
      have hset := ih (fun other hother => h other (List.mem_append_left _ hother))
        (different.sublist (List.sublist_append_left _ _))
      rw [AllDifferent, List.filterMap_append, List.nodup_append] at different
      have hfresh : ¬(ids.filterMap Identity.key?).contains k = true := by
        rw [List.contains_iff_mem]
        exact fun hmem => different.2.2 k hmem k List.mem_cons_self rfl
      rw [ofIdentities_append_singleton, hset, List.filterMap_append]
      exact congrArg Except.ok (if_neg hfresh)

end Ranking

/-! ## Cells as identifiers -/

namespace Column

variable {ids : Column}

theorem isMissing_of_key?_nan {d : Datum} (h : d.key? = some .nan) : d.isMissing = true := by
  cases d with
  | float x =>
      rw [Datum.key?] at h
      rw [Datum.isMissing, ← ofFloat_eq_nan_iff]
      split at h
      · assumption
      · cases h
      · cases h
  | _ => cases h

/-- What is not missing is looked up by its key. -/
theorem key?_identity (floats : Bool) {d : Datum} (hpresent : d.isMissing = false) :
    (Identity.of floats d).key? = d.key? := by
  rw [Identity.of]
  cases hkey : d.key? with
  | none => rfl
  | some k =>
      cases k with
      | nan =>
          rw [isMissing_of_key?_nan hkey] at hpresent
          cases hpresent
      | _ => rfl

/-- Identifiers that are there and have keys are looked up by these. -/
theorem keyed_identities (hpresent : ∀ cell ∈ ids.cells, cell.isMissing = false)
    (hkeys : ∀ cell ∈ ids.cells, cell.key?.isSome = true) :
    ∀ id ∈ ids.identifiers.map (·.identity), ∃ k, id = .keyed k := by
  rw [Column.identifiers, List.map_map, List.forall_mem_map]
  intro cell hcell
  obtain ⟨k, hk⟩ := Option.isSome_iff_exists.mp (hkeys cell hcell)
  exact ⟨k, Identity.key?_eq_some_iff.mp ((key?_identity _ (hpresent cell hcell)).trans hk)⟩

/-- The identifiers of a column can be looked up again: if it holds doubles, then none of them is missing. -/
def Retrievable (ids : Column) : Prop := ids.kind = .real → ∀ cell ∈ ids.cells, cell.isMissing = false

/-- They have the keys of their cells. -/
theorem Retrievable.key?_identity (h : ids.Retrievable) {cell : Datum} (hcell : cell ∈ ids.cells) :
    (Identity.of (ids.kind == .real) cell).key? = cell.key? := by
  by_cases hreal : ids.kind = .real
  · exact Column.key?_identity _ (h hreal cell hcell)
  · rw [beq_eq_false_iff_ne.mpr hreal, Identity.of]
    cases hkey : cell.key? with
    | none => rfl
    | some k => cases k <;> rfl

/-- So they are different if their keys are. -/
theorem Retrievable.different (h : ids.Retrievable) (hnodup : (ids.cells.filterMap Datum.key?).Nodup) :
    AllDifferent (ids.identifiers.map (·.identity)) := by
  have hkeys : ids.cells.filterMap (fun cell => (Identity.of (ids.kind == .real) cell).key?) =
      ids.cells.filterMap Datum.key? :=
    List.filterMap_congr fun cell hcell => h.key?_identity hcell
  rw [AllDifferent, Column.identifiers, List.map_map, List.filterMap_map]
  exact hkeys.symm ▸ hnodup

/-- None of them is apart. -/
theorem Retrievable.ne_apart (h : ids.Retrievable) :
    ∀ id ∈ ids.identifiers.map (·.identity), id ≠ .apart := by
  rw [Column.identifiers, List.map_map, List.forall_mem_map]
  intro cell hcell hapart
  have hkey := h.key?_identity hcell
  change Identity.of _ cell = .apart at hapart
  rw [hapart] at hkey
  rw [Identity.of, ← hkey] at hapart
  cases hapart

/-- Identifiers that are there are different if their keys are. -/
theorem different_identities (hpresent : ∀ cell ∈ ids.cells, cell.isMissing = false)
    (hnodup : (ids.cells.filterMap Datum.key?).Nodup) : AllDifferent (ids.identifiers.map (·.identity)) :=
  Retrievable.different (fun _ => hpresent) hnodup

end Column

/-! ## Matching -/

namespace Ranking.Identifier

/-- Keeps an identifier unless its key was seen. -/
def keep (state : List Identifier × List Key) (id : Identifier) : List Identifier × List Key :=
  match id.identity.key? with
  | some k => if state.2.contains k then state else (id :: state.1, k :: state.2)
  | none => (id :: state.1, state.2)

theorem foldl_keep {ids : List Identifier} (h : AllDifferent (ids.map (·.identity))) :
    ids.foldl keep ([], []) = (ids.reverse, ((ids.map (·.identity)).filterMap Identity.key?).reverse) := by
  induction ids using List.reverseRecOn with
  | nil => rfl
  | append_singleton ids id ih =>
      rw [List.map_append] at h ⊢
      have hkept := ih (h.sublist (List.sublist_append_left _ _))
      rw [AllDifferent, List.filterMap_append, List.nodup_append] at h
      rw [List.foldl_append, hkept, List.foldl_cons, List.foldl_nil, keep, List.filterMap_append]
      cases hkey : id.identity.key? with
      | none => simp [hkey]
      | some k =>
          rw [List.map_singleton, List.filterMap_cons_some hkey] at h ⊢
          have hfresh : ¬((ids.map (·.identity)).filterMap Identity.key?).reverse.contains k = true := by
            rw [List.contains_iff_mem, List.mem_reverse]
            exact fun hmem => h.2.2 k hmem k List.mem_cons_self rfl
          dsimp only
          rw [if_neg hfresh, List.reverse_append, List.reverse_append]
          rfl

/-- Different identifiers are distinct as they are. -/
theorem distinct_of_different {ids : List Identifier} (h : AllDifferent (ids.map (·.identity))) :
    distinct ids = ids := by
  have hfold : distinct ids = (ids.foldl keep ([], [])).1.reverse := rfl
  rw [hfold, foldl_keep h, List.reverse_reverse]

end Ranking.Identifier

namespace Labels

/-- Rows with different identifiers match as their labels pass. -/
theorem matching_of_different {labels : Labels} (hkeyed : ∀ l ∈ labels, ∃ k, l.id.identity = .keyed k)
    (different : AllDifferent (labels.map (·.id.identity))) (hlabels : ∀ l ∈ labels, l.label.isSome = true)
    (test : String → Bool) :
    labels.matching test = .ok ((labels.filter (Labelled.passes test)).map (·.id)) := by
  let hits := (labels.filter (Labelled.passes test)).filterMap (·.id.identity.key?)
  have hnodup := nodup_of_different (List.forall_mem_map.mpr hkeyed) different
  -- no other row has the key of a row that passes
  have hhits : ∀ l ∈ labels, ∀ k, l.id.identity = .keyed k → hits.contains k = l.passes test := by
    intro l hl k hk
    rw [Bool.eq_iff_iff, List.contains_iff_mem, List.mem_filterMap]
    constructor
    · rintro ⟨other, hother, hkey⟩
      obtain ⟨hmem, hpasses⟩ := List.mem_filter.mp hother
      have hsame := hk.trans (Identity.key?_eq_some_iff.mp hkey).symm
      rw [List.inj_on_of_nodup_map hnodup hl hmem hsame]
      exact hpasses
    · exact fun hpasses => ⟨l, List.mem_filter.mpr ⟨hl, hpasses⟩, Identity.key?_eq_some_iff.mpr hk⟩
  have hdistinct : Identifier.distinct ((labels.filter (Labelled.passes test)).map (·.id)) =
      (labels.filter (Labelled.passes test)).map (·.id) := by
    apply Identifier.distinct_of_different
    rw [List.map_map]
    exact different.sublist (List.filter_sublist.map _)
  have hcollected : (labels.filter (Labelled.passes test)).any (·.id.identity.isKeyless) = false := by
    rw [List.any_eq_false]
    intro l hl
    obtain ⟨k, hk⟩ := hkeyed l (List.mem_of_mem_filter hl)
    rw [hk]
    exact Bool.false_ne_true
  rw [matching]
  dsimp only
  rw [List.all_eq_true.mpr hlabels, hcollected, Bool.not_false, Bool.and_true, if_pos rfl,
    List.filter_congr (q := Labelled.passes test), hdistinct]
  intro l hl
  obtain ⟨k, hk⟩ := hkeyed l hl
  rw [hk]
  exact hhits l hl k hk

end Labels

end RankingEval
