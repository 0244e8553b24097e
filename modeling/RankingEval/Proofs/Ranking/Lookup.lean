/-
# Identifiers and what is looked up for them

A ranking is a list of identifiers, and its items are what look-ups give for them. This module relates the
two lists: an item stands where its identifier does, the positive items are counted by the keys they come
from, and of identifiers that are all different no more are positive than there are positives.
-/

import Mathlib.Data.List.Induction
import Mathlib.Data.List.Nodup
import Mathlib.Data.List.Perm.Subperm
import RankingEval.Proofs.Computation
import RankingEval.Ranking.Tally

namespace RankingEval.Ranking

/-- An item is what the look-ups among the positives and the scores give for an identifier. -/
theorem Item.of_eq_ok_iff {positives : Positives} {scores : Option Scores} {id : Identity}
    {item : Item} :
    Item.of positives scores id = .ok item ↔
      positives.holds id = .ok item.positive ∧
        match scores with
        | none => item.score = none
        | some table => ∃ score, table.get id = .ok score ∧ item.score = some score := by
  obtain ⟨positive, score⟩ := item
  rw [Item.of]
  cases positives.holds id with
  | error failure =>
      constructor
      · rintro ⟨⟩
      · rintro ⟨⟨⟩, -⟩
  | ok held =>
      cases scores with
      | none =>
          constructor
          · rintro ⟨⟩
            exact ⟨rfl, rfl⟩
          · rintro ⟨⟨⟩, rfl⟩
            rfl
      | some table =>
          change (table.get id >>= fun found => pure (⟨held, some found⟩ : Item)) =
              Except.ok ⟨positive, score⟩ ↔
            (Except.ok held : Except Failure Bool) = .ok positive ∧
              ∃ found, table.get id = .ok found ∧ score = some found
          cases table.get id with
          | error failure =>
              constructor
              · rintro ⟨⟩
              · rintro ⟨-, found, ⟨⟩, -⟩
          | ok found =>
              constructor
              · rintro ⟨⟩
                exact ⟨rfl, found, rfl, rfl⟩
              · rintro ⟨⟨⟩, other, ⟨⟩, rfl⟩
                rfl

/-- The items of a ranking stand where their identifiers do. -/
theorem length_of_looked {positives : Positives} {scores : Option Scores} {ids : List Identity}
    {items : List Item} (looked : ids.mapM (Item.of positives scores) = .ok items) :
    items.length = ids.length :=
  (mapM_eq_ok_iff.mp looked).length_eq.symm

/-- Every identifier can be looked up when it can be looked up among the positives and, if there are
scores, among the scores. -/
theorem exists_looked {positives : Positives} {scores : Option Scores} {ids : List Identity}
    (hheld : ∀ id ∈ ids, ∃ held, positives.holds id = .ok held)
    (hscored : ∀ table ∈ scores, ∀ id ∈ ids, ∃ score, table.get id = .ok score) :
    ∃ items, ids.mapM (Item.of positives scores) = .ok items := by
  simp only [mapM_eq_ok_iff]
  induction ids with
  | nil => exact ⟨[], .nil⟩
  | cons id ids ih =>
      obtain ⟨items, hitems⟩ := ih (fun i hi => hheld i (List.mem_cons_of_mem id hi))
        fun table htable i hi => hscored table htable i (List.mem_cons_of_mem id hi)
      obtain ⟨held, hid⟩ := hheld id List.mem_cons_self
      cases scores with
      | none => exact ⟨⟨held, none⟩ :: items, .cons (Item.of_eq_ok_iff.mpr ⟨hid, rfl⟩) hitems⟩
      | some table =>
          obtain ⟨score, hscore⟩ := hscored table rfl id List.mem_cons_self
          exact ⟨⟨held, some score⟩ :: items,
            .cons (Item.of_eq_ok_iff.mpr ⟨hid, score, hscore, rfl⟩) hitems⟩

/-- An identifier is found among the positives. -/
def Positives.has (positives : Positives) (id : Identity) : Bool :=
  (positives.holds id).toOption.getD false

/-- An identifier with a key can be looked up. -/
theorem Positives.holds_keyed (positives : Positives) (k : Key) :
    ∃ held, positives.holds (.keyed k) = .ok held := by
  cases positives <;> exact ⟨_, rfl⟩

theorem Positives.has_of_holds {positives : Positives} {id : Identity} {held : Bool}
    (h : positives.holds id = .ok held) : positives.has id = held := by
  rw [Positives.has, h]
  rfl

/-- One more identifier is counted unless its key is in the set. -/
theorem Positives.ofIdentities_append_singleton (ids : List Identity) (id : Identity) :
    ofIdentities (ids ++ [id]) = (ofIdentities ids).bind fun set =>
      match set, id with
      | .set keys apart, .keyed k => .ok (if keys.contains k then set else .set (keys ++ [k]) apart)
      | .set keys apart, .apart => .ok (.set keys (apart + 1))
      | _, _ => .error .mistyped := by
  rw [ofIdentities, List.foldlM_append]
  congr 1
  funext set
  cases set <;> cases id <;> rfl

/-- Identifiers form a set if none of them is without a key, and the set is empty only if there are none. -/
theorem Positives.ofIdentities_eq_set {ids : List Identity}
    (h : ∀ id ∈ ids, id.isKeyless = false) :
    ∃ keys apart, ofIdentities ids = .ok (.set keys apart) ∧
      (ids ≠ [] → (Positives.set keys apart).count ≠ 0) := by
  induction ids using List.reverseRecOn with
  | nil => exact ⟨[], 0, rfl, fun hnil => absurd rfl hnil⟩
  | append_singleton ids id ih =>
      obtain ⟨keys, apart, hset, -⟩ := ih fun other hother => h other (List.mem_append_left _ hother)
      rw [ofIdentities_append_singleton, hset]
      cases id with
      | keyed k =>
          by_cases hknown : keys.contains k = true
          · refine ⟨keys, apart, congrArg Except.ok (if_pos hknown), fun _ => ?_⟩
            have hkeys := List.length_pos_of_mem (List.contains_iff_mem.mp hknown)
            rw [count]
            omega
          · refine ⟨keys ++ [k], apart, congrArg Except.ok (if_neg hknown), fun _ => ?_⟩
            rw [count, List.length_append, List.length_singleton]
            omega
      | apart => exact ⟨keys, apart + 1, rfl, fun _ => Nat.succ_ne_zero _⟩
      | keyless value => cases h _ (List.mem_append_right _ List.mem_cons_self)

/-- Without scores the items of a ranking say which identifiers are positive, and nothing else. -/
theorem looked_unscored {positives : Positives} {ids : List Identity}
    (hheld : ∀ id ∈ ids, ∃ held, positives.holds id = .ok held) :
    ids.mapM (Item.of positives none) = .ok (ids.map fun id => ⟨positives.has id, none⟩) := by
  rw [mapM_eq_ok_iff, List.forall₂_map_right_iff, List.forall₂_same]
  intro id hid
  obtain ⟨held, hid⟩ := hheld id hid
  rw [Positives.has_of_holds hid]
  exact Item.of_eq_ok_iff.mpr ⟨hid, rfl⟩

/-- The item without its score. -/
def Item.unscored (item : Item) : Item := ⟨item.positive, none⟩

/-- Without scores the same identifiers are positive, and no item has a score. -/
theorem looked_none_of_looked {positives : Positives} {scores : Option Scores} {ids : List Identity}
    {items : List Item} (looked : ids.mapM (Item.of positives scores) = .ok items) :
    ids.mapM (Item.of positives none) = .ok (items.map Item.unscored) := by
  rw [mapM_eq_ok_iff] at looked ⊢
  rw [List.forall₂_map_right_iff]
  refine looked.imp fun id item hitem => ?_
  exact Item.of_eq_ok_iff.mpr ⟨(Item.of_eq_ok_iff.mp hitem).1, rfl⟩

/-- Identifiers no two of which are equal. Identifiers that are apart are equal to nothing. -/
def AllDifferent (ids : List Identity) : Prop := (ids.filterMap Identity.key?).Nodup

instance (ids : List Identity) : Decidable (AllDifferent ids) :=
  inferInstanceAs (Decidable (ids.filterMap Identity.key?).Nodup)

theorem AllDifferent.of_perm {ids others : List Identity} (h : AllDifferent ids)
    (hperm : ids.Perm others) : AllDifferent others :=
  (hperm.filterMap _).nodup_iff.mp h

variable {keys : List Key} {apart : ℕ} {scores : Option Scores} {ids : List Identity}
  {items : List Item}

/-- The positive items come from the keys that are positive. -/
theorem countP_positive (looked : ids.mapM (Item.of (.set keys apart) scores) = .ok items) :
    items.countP (·.positive) = (ids.filterMap Identity.key?).countP (keys.contains ·) := by
  rw [mapM_eq_ok_iff] at looked
  induction looked with
  | nil => rfl
  | @cons id item ids items hitem _ ih =>
      have hheld := (Item.of_eq_ok_iff.mp hitem).1
      cases id with
      | keyed k =>
          obtain hpositive : keys.contains k = item.positive := Except.ok.inj hheld
          rw [List.countP_cons, ih, ← hpositive]
          exact List.countP_cons.symm
      | apart =>
          obtain hpositive : false = item.positive := Except.ok.inj hheld
          rw [List.countP_cons, ih, ← hpositive]
          rfl
      | keyless value => cases hheld

/-- Of identifiers that are all different no more are positive than there are positives. -/
theorem countP_positive_le (looked : ids.mapM (Item.of (.set keys apart) scores) = .ok items)
    (different : AllDifferent ids) :
    items.countP (·.positive) ≤ (Positives.set keys apart).count := by
  rw [countP_positive looked, List.countP_eq_length_filter]
  have hsubset : (ids.filterMap Identity.key?).filter (keys.contains ·) ⊆ keys := fun k hk => by
    simpa using (List.mem_filter.mp hk).2
  have hsubperm := List.subperm_of_subset (List.Nodup.filter _ different) hsubset
  exact Nat.le_trans hsubperm.length_le (Nat.le_add_right _ _)

end RankingEval.Ranking
