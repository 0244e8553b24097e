/-
# Entries under keys

An entry is put among others in the place of the one with its key, or behind all of them. After many entries
were put one after the other, every key stands once, where it first came, and with the entry that came last
under it. The store keeps its results in this way by the handles of the rankings, and a summary keeps its
values by name.
-/

import Mathlib.Data.List.Induction
import Mathlib.Data.List.Nodup
import Mathlib.Data.List.Perm.Subperm
import RankingEval.Store

namespace RankingEval.Keyed

variable {δ κ : Type} [DecidableEq κ]

/-- Puts an entry among others: in the place of the one with its key, or behind all of them. -/
def put (key : δ → κ) (entries : List δ) (e : δ) : List δ :=
  if entries.any (key · == key e) then entries.map fun old => if key old == key e then e else old
  else entries ++ [e]

/-- The last entry under a key. -/
def last? (key : δ → κ) (entries : List δ) (k : κ) : Option δ := entries.findRev? (key · == k)

/-- Every key of a list once, in the order in which the keys first come, with its last entry. -/
def latest (key : δ → κ) (entries : List δ) : List δ :=
  (entries.map key).eraseDups.filterMap (last? key entries)

/-! ## Keys in the order of their first appearance -/

theorem eraseDups_concat (ks : List κ) (k : κ) :
    (ks ++ [k]).eraseDups = if k ∈ ks then ks.eraseDups else ks.eraseDups ++ [k] := by
  rw [List.eraseDups_append]
  split_ifs with h <;> simp [List.removeAll, h, List.eraseDups_cons]

theorem nodup_eraseDups (ks : List κ) : ks.eraseDups.Nodup := by
  induction ks using List.reverseRecOn with
  | nil => exact List.nodup_nil
  | append_singleton ks k ih =>
      rw [eraseDups_concat]
      split_ifs with h
      · exact ih
      · rw [← List.concat_eq_append]
        exact ih.concat fun hk => h (List.mem_eraseDups.mp hk)

/-- Nothing is dropped from a list without repetitions, and something is from every other one. -/
theorem length_eraseDups_eq_iff (ks : List κ) : ks.eraseDups.length = ks.length ↔ ks.Nodup := by
  constructor
  · intro h
    have hperm : ks.eraseDups.Subperm ks :=
      (nodup_eraseDups ks).subperm fun _ hk => List.mem_eraseDups.mp hk
    exact (hperm.perm_of_length_le (Nat.le_of_eq h.symm)).nodup_iff.mp (nodup_eraseDups ks)
  · intro h
    induction ks using List.reverseRecOn with
    | nil => rfl
    | append_singleton ks k ih =>
        obtain ⟨hks, -, hk⟩ := List.nodup_append.mp h
        rw [eraseDups_concat, if_neg fun hmem => hk k hmem k (List.mem_singleton_self k) rfl,
          List.length_append, ih hks, List.length_append]

/-! ## The last entry under a key -/

variable (key : δ → κ) (entries : List δ)

theorem last?_concat (e : δ) (k : κ) :
    last? key (entries ++ [e]) k = if key e = k then some e else last? key entries k := by
  simp only [last?, List.findRev?_eq_find?_reverse, List.reverse_append, List.reverse_singleton,
    List.singleton_append, List.find?_cons]
  by_cases h : key e = k
  · rw [if_pos h, beq_iff_eq.mpr h]
  · rw [if_neg h, beq_eq_false_iff_ne.mpr h]

theorem last?_cons (e : δ) (k : κ) :
    last? key (e :: entries) k = (last? key entries k).or (if key e = k then some e else none) := by
  simp only [last?, List.findRev?_eq_find?_reverse, List.reverse_cons, List.find?_append,
    List.find?_singleton, beq_iff_eq]

variable {key entries}

theorem key_of_last?_eq_some {k : κ} {e : δ} (h : last? key entries k = some e) : key e = k := by
  rw [last?, List.findRev?_eq_find?_reverse] at h
  simpa using List.find?_some h

theorem mem_of_last?_eq_some {k : κ} {e : δ} (h : last? key entries k = some e) : e ∈ entries := by
  rw [last?, List.findRev?_eq_find?_reverse] at h
  exact List.mem_reverse.mp (List.mem_of_find?_eq_some h)

theorem last?_eq_none_iff {k : κ} : last? key entries k = none ↔ k ∉ entries.map key := by
  rw [last?, List.findRev?_eq_find?_reverse, List.find?_eq_none]
  simp

theorem exists_last?_eq_some {k : κ} (h : k ∈ entries.map key) : ∃ e, last? key entries k = some e := by
  rw [← Option.ne_none_iff_exists', ne_eq, last?_eq_none_iff]
  exact not_not_intro h

theorem last?_of_nodup (h : (entries.map key).Nodup) {e : δ} (he : e ∈ entries) :
    last? key entries (key e) = some e := by
  obtain ⟨other, hother⟩ := exists_last?_eq_some (List.mem_map_of_mem (f := key) he)
  rw [hother, List.inj_on_of_nodup_map h (mem_of_last?_eq_some hother) he (key_of_last?_eq_some hother)]

omit [DecidableEq κ] in
theorem map_eq_of_forall₂ {ν : Type} {keyOf : ν → κ} {R : δ → ν → Prop} {values : List ν}
    (h : List.Forall₂ R entries values) (hkey : ∀ e v, R e v → keyOf v = key e) :
    values.map keyOf = entries.map key := by
  induction h with
  | nil => rfl
  | cons hfirst _ ih => rw [List.map_cons, List.map_cons, ih, hkey _ _ hfirst]

/-- Where every entry has a value under the same key, the last entry under a key has the last value. -/
theorem exists_last?_of_forall₂ {ν : Type} {keyOf : ν → κ} {R : δ → ν → Prop} {values : List ν}
    (h : List.Forall₂ R entries values) (hkey : ∀ e v, R e v → keyOf v = key e) {k : κ} {e : δ}
    (he : last? key entries k = some e) : ∃ v, R e v ∧ last? keyOf values k = some v := by
  induction h with
  | nil => cases he
  | @cons first value entries values hfirst hrest ih =>
      rw [last?_cons] at he ⊢
      cases hlast : last? key entries k with
      | some last =>
          rw [hlast, Option.some_or] at he
          obtain ⟨v, hv, hvalues⟩ := ih (hlast.trans he)
          exact ⟨v, hv, by rw [hvalues, Option.some_or]⟩
      | none =>
          have hnone : last? keyOf values k = none := by
            rw [last?_eq_none_iff, map_eq_of_forall₂ hrest hkey, ← last?_eq_none_iff]
            exact hlast
          rw [hlast, Option.none_or] at he
          obtain ⟨hk, heq⟩ := Option.ite_none_right_eq_some.mp he
          cases heq
          exact ⟨value, hfirst, by rw [hnone, Option.none_or, hkey _ _ hfirst, if_pos hk]⟩

/-! ## What was put last -/

variable (key entries)

/-- Every key stands once, and in the order in which the keys first came. -/
theorem map_key_latest : (latest key entries).map key = (entries.map key).eraseDups := by
  have hkey : ∀ k ∈ (entries.map key).eraseDups, (last? key entries k).map key = some k := by
    intro k hk
    obtain ⟨e, he⟩ := exists_last?_eq_some (List.mem_eraseDups.mp hk)
    rw [he, Option.map_some, key_of_last?_eq_some he]
  rw [latest, List.map_filterMap, List.filterMap_congr hkey, List.filterMap_some]

/-- One more entry is put in the place of its key. -/
theorem latest_concat (e : δ) : latest key (entries ++ [e]) = put key (latest key entries) e := by
  have hany : (latest key entries).any (key · == key e) = decide (key e ∈ entries.map key) := by
    have hmem : key e ∈ (latest key entries).map key ↔ key e ∈ entries.map key := by
      rw [map_key_latest, List.mem_eraseDups]
    rw [Bool.eq_iff_iff, decide_eq_true_iff, ← hmem]
    simp
  rw [put, hany, latest, List.map_append, List.map_singleton, eraseDups_concat]
  by_cases hold : key e ∈ entries.map key
  · rw [if_pos hold, if_pos (decide_eq_true hold), latest, List.map_filterMap]
    apply List.filterMap_congr
    intro k hk
    obtain ⟨old, hlast⟩ := exists_last?_eq_some (List.mem_eraseDups.mp hk)
    obtain rfl := key_of_last?_eq_some hlast
    rw [last?_concat, hlast, Option.map_some]
    by_cases h : key old = key e
    · rw [if_pos h.symm, if_pos (beq_iff_eq.mpr h)]
    · rw [if_neg (Ne.symm h), if_neg (mt beq_iff_eq.mp h)]
  · have hother : ∀ k ∈ (entries.map key).eraseDups,
        last? key (entries ++ [e]) k = last? key entries k := by
      intro k hk
      rw [last?_concat, if_neg]
      rintro rfl
      exact hold (List.mem_eraseDups.mp hk)
    rw [if_neg hold, if_neg (by simpa using hold), List.filterMap_append, List.filterMap_congr hother,
      List.filterMap_cons_some (by rw [last?_concat, if_pos rfl]), List.filterMap_nil, latest]

/-- Entries that are put one after the other leave the last one under every key. -/
theorem foldl_put : entries.foldl (put key) [] = latest key entries := by
  induction entries using List.reverseRecOn with
  | nil => rfl
  | append_singleton entries e ih => rw [List.foldl_concat, ih, latest_concat]

theorem latest_of_nodup (h : (entries.map key).Nodup) : latest key entries = entries := by
  rw [← foldl_put]
  induction entries using List.reverseRecOn with
  | nil => rfl
  | append_singleton entries e ih =>
      rw [List.map_append, List.nodup_append] at h
      rw [List.foldl_concat, ih h.1, put, if_neg]
      intro hold
      obtain ⟨old, hmem, hkey⟩ := List.any_eq_true.mp hold
      exact h.2.2 (key old) (List.mem_map_of_mem hmem) (key e) (by simp) (beq_iff_eq.mp hkey)

/-- An entry stands in the result exactly when it is the last one under its key. -/
theorem mem_latest_iff {e : δ} : e ∈ latest key entries ↔ last? key entries (key e) = some e := by
  rw [latest, List.mem_filterMap]
  constructor
  · rintro ⟨k, -, h⟩
    rw [key_of_last?_eq_some h]
    exact h
  · intro h
    exact ⟨key e, List.mem_eraseDups.mpr (List.mem_map_of_mem (mem_of_last?_eq_some h)), h⟩

variable {entries}

theorem find?_latest (k : κ) : (latest key entries).find? (key · == k) = last? key entries k := by
  cases hlast : last? key entries k with
  | none =>
      rw [List.find?_eq_none]
      intro e he hk
      rw [mem_latest_iff, beq_iff_eq.mp hk, hlast] at he
      cases he
  | some e =>
      have hk := key_of_last?_eq_some hlast
      have hmem : e ∈ latest key entries := by
        rw [mem_latest_iff, hk, hlast]
      have hnodup : ((latest key entries).map key).Nodup := by
        rw [map_key_latest]
        exact nodup_eraseDups _
      have hsome : ((latest key entries).find? (key · == k)).isSome :=
        List.find?_isSome.mpr ⟨e, hmem, beq_iff_eq.mpr hk⟩
      obtain ⟨found, hfound⟩ := Option.isSome_iff_exists.mp hsome
      have hfoundKey := List.find?_some hfound
      have hsame : key found = key e := (beq_iff_eq.mp hfoundKey).trans hk.symm
      rw [hfound, List.inj_on_of_nodup_map hnodup (List.mem_of_find?_eq_some hfound) hmem hsame]

end RankingEval.Keyed

namespace RankingEval

/-- A store puts its entries by the handles of the rankings. -/
theorem Store.entries_add {γ : Type} (s : Store γ) (r : Ranking) (result : γ) :
    (s.add r result).entries = Keyed.put (·.1.handle) s.entries (r, result) := by
  rw [Store.add, Keyed.put, Store.contains]
  split_ifs <;> rfl

end RankingEval
