/-
# Counted labels

Labels are counted in groups of equal ones, and the groups are noted under their texts only afterwards. A group is
known by the label that comes first in it, which also gives the text (`IsGroup`); every label is in one group, so
that the groups have as many labels as there are. Under a text the rarest of its groups is noted, and the others are
lost (`Tallies`). The counts are those of the texts if labels are equal exactly where they have one text, as they are
in every column of one kind that does not hold both zeros.
-/

import Mathlib
import RankingEval.Proofs.Datum.Texts
import RankingEval.Proofs.Keyed
import RankingEval.Proofs.Table.LabelForms

namespace RankingEval

namespace LabelCounts

/-- The labels that are counted: those that are not missing, as their column stores them. -/
def present (labels : List Datum) : List Datum := (Column.infer labels).cells.filter fun d => !d.isMissing

/-- A label is the first of those equal to it, and so many they are. -/
structure IsGroup (labels : List Datum) (d : Datum) (n : ℕ) : Prop where
  first : labels.find? d.sameScalar = some d
  size : n = labels.countP d.sameScalar

section

variable {labels : List Datum} {d e : Datum} {n : ℕ}

namespace IsGroup

theorem mem (h : IsGroup labels d n) : d ∈ labels := List.mem_of_find?_eq_some h.first

theorem same_self (h : IsGroup labels d n) : d.sameScalar d = true := List.find?_some h.first

theorem pos (h : IsGroup labels d n) : 0 < n := by
  rw [h.size, List.countP_pos_iff]
  exact ⟨d, h.mem, h.same_self⟩

/-- Equal labels are in one group. -/
theorem eq_of_same {m : ℕ} (h : IsGroup labels d m) (h' : IsGroup labels e n) (hsame : d.sameScalar e = true) :
    d = e ∧ m = n := by
  have hpredicate := Datum.sameScalar_eq_of_same hsame
  have hfirst := h.first
  rw [hpredicate, h'.first] at hfirst
  exact ⟨(Option.some.inj hfirst).symm, by rw [h.size, h'.size, hpredicate]⟩

end IsGroup

/-- Every label that is equal to itself is in a group. -/
theorem exists_isGroup (hd : d ∈ labels) (hself : d.sameScalar d = true) :
    ∃ e, d.sameScalar e = true ∧ IsGroup labels e (labels.countP e.sameScalar) := by
  obtain ⟨e, he⟩ := Option.isSome_iff_exists.mp (List.find?_isSome.mpr ⟨d, hd, hself⟩)
  have hsame : d.sameScalar e = true := List.find?_some he
  rw [Datum.sameScalar_eq_of_same hsame] at he
  exact ⟨e, hsame, he, rfl⟩

/-! ## One more label -/

/-- A label changes no group but its own. -/
theorem isGroup_concat_of_other (hother : ¬e.sameScalar d = true) :
    IsGroup (labels ++ [d]) e n ↔ IsGroup labels e n := by
  have hfirst : (labels ++ [d]).find? e.sameScalar = labels.find? e.sameScalar := by
    rw [List.find?_append, List.find?_cons_of_neg hother, List.find?_nil, Option.or_none]
  have hsize : (labels ++ [d]).countP e.sameScalar = labels.countP e.sameScalar := by
    rw [List.countP_append, List.countP_singleton, if_neg hother, Nat.add_zero]
  exact ⟨fun h => ⟨hfirst ▸ h.first, hsize ▸ h.size⟩, fun h => ⟨hfirst.trans h.first, h.size.trans hsize.symm⟩⟩

/-- A label that is equal to an earlier one joins its group. -/
theorem isGroup_concat_of_seen (hseen : ∃ f ∈ labels, f.sameScalar d = true) (hsame : e.sameScalar d = true) :
    IsGroup (labels ++ [d]) e n ↔ ∃ m, IsGroup labels e m ∧ n = m + 1 := by
  obtain ⟨f, hf, hfd⟩ := hseen
  rw [Datum.sameScalar_comm] at hfd
  have hfound := List.find?_isSome.mpr ⟨f, hf, Datum.sameScalar_trans hsame hfd⟩
  have hfirst : (labels ++ [d]).find? e.sameScalar = labels.find? e.sameScalar := by
    rw [List.find?_append]
    exact Option.or_of_isSome hfound
  have hsize : (labels ++ [d]).countP e.sameScalar = labels.countP e.sameScalar + 1 := by
    rw [List.countP_append, List.countP_singleton, if_pos hsame]
  constructor
  · rintro ⟨hfind, hcount⟩
    exact ⟨_, ⟨hfirst ▸ hfind, rfl⟩, hcount.trans hsize⟩
  · rintro ⟨m, ⟨hfind, rfl⟩, hcount⟩
    exact ⟨hfirst.trans hfind, hcount.trans hsize.symm⟩

/-- A label that is equal to none before it makes a group of its own. -/
theorem isGroup_concat_of_new (hkeyed : d.key?.isSome = true) (hnew : ∀ f ∈ labels, ¬f.sameScalar d = true) :
    IsGroup (labels ++ [d]) e n ↔ IsGroup labels e n ∨ e = d ∧ n = 1 := by
  have hself : d.sameScalar d = true := (Datum.sameScalar_iff hkeyed).mpr rfl
  have hothers (f : Datum) (hf : f ∈ labels) : ¬d.sameScalar f = true := by
    rw [Datum.sameScalar_comm]
    exact hnew f hf
  have hown : IsGroup (labels ++ [d]) d 1 := by
    constructor
    · rw [List.find?_append, List.find?_eq_none.mpr hothers, Option.none_or, List.find?_cons_of_pos hself]
    · rw [List.countP_append, List.countP_singleton, List.countP_eq_zero.mpr hothers, if_pos hself]
  by_cases hsame : e.sameScalar d = true
  · constructor
    · intro h
      exact .inr (h.eq_of_same hown hsame)
    · rintro (h | ⟨rfl, rfl⟩)
      · exact absurd hsame (hnew e h.mem)
      · exact hown
  · rw [isGroup_concat_of_other hsame, or_iff_left]
    rintro ⟨rfl, -⟩
    exact hsame hself

end

/-! ## Groups -/

/-- The groups of some labels, each with its first label and its size. -/
structure Grouped (labels : List Datum) (groups : List (Datum × ℕ)) : Prop where
  distinct : (groups.map (·.1.key?)).Nodup
  mem_iff : ∀ d n, (d, n) ∈ groups ↔ IsGroup labels d n
  sum_eq : (groups.map (·.2)).sum = labels.length

section

variable {labels : List Datum} {groups : List (Datum × ℕ)} {d : Datum}

/-- Adds one to the count of a group that is equal to a label. -/
def raise (d : Datum) (group : Datum × ℕ) : Datum × ℕ :=
  if group.1.sameScalar d then (group.1, group.2 + 1) else group

theorem tallyValue_eq (groups : List (Datum × ℕ)) (d : Datum) :
    tallyValue groups d = if groups.any (·.1.sameScalar d) then groups.map (raise d) else groups ++ [(d, 1)] := rfl

theorem mem_map_raise_iff {e : Datum} {n : ℕ} :
    (e, n) ∈ groups.map (raise d) ↔
      if e.sameScalar d then ∃ m, (e, m) ∈ groups ∧ n = m + 1 else (e, n) ∈ groups := by
  rw [List.mem_map]
  split_ifs with hsame
  · constructor
    · rintro ⟨⟨f, m⟩, hmem, hraise⟩
      rw [raise] at hraise
      split_ifs at hraise with hf
      · cases hraise
        exact ⟨m, hmem, rfl⟩
      · cases hraise
        exact absurd hsame hf
    · rintro ⟨m, hmem, rfl⟩
      exact ⟨(e, m), hmem, if_pos hsame⟩
  · constructor
    · rintro ⟨⟨f, m⟩, hmem, hraise⟩
      rw [raise] at hraise
      split_ifs at hraise with hf
      · cases hraise
        exact absurd hf hsame
      · cases hraise
        exact hmem
    · intro hmem
      exact ⟨(e, n), hmem, if_neg hsame⟩

theorem sum_map_raise (groups : List (Datum × ℕ)) (d : Datum) :
    ((groups.map (raise d)).map (·.2)).sum = (groups.map (·.2)).sum + groups.countP (·.1.sameScalar d) := by
  induction groups with
  | nil => rfl
  | cons group groups ih =>
      rw [List.map_cons, List.map_cons, List.sum_cons, ih, List.map_cons, List.sum_cons, List.countP_cons, raise]
      split_ifs <;> omega

/-- A label is equal to no more than one group. -/
theorem Grouped.countP_eq_one (h : Grouped labels groups) (hd : d.key?.isSome = true)
    (hany : groups.any (·.1.sameScalar d) = true) : groups.countP (·.1.sameScalar d) = 1 := by
  have hsame (group : Datum × ℕ) : group.1.sameScalar d = (group.1.key? == d.key?) := by
    rw [Datum.sameScalar_comm, Bool.eq_iff_iff, Datum.sameScalar_iff hd, beq_iff_eq, eq_comm]
  obtain ⟨group, hgroup, hequal⟩ := List.any_eq_true.mp hany
  rw [hsame, beq_iff_eq] at hequal
  calc groups.countP (·.1.sameScalar d) = (groups.map (·.1.key?)).count d.key? := by
        rw [List.count_eq_countP, List.countP_map]
        exact List.countP_congr fun group _ => by rw [hsame, Function.comp_apply]
    _ = 1 := List.count_eq_one_of_mem h.distinct (hequal ▸ List.mem_map_of_mem hgroup)

/-- A label that is equal to a group joins it. -/
theorem Grouped.raise (h : Grouped labels groups) (hd : d.key?.isSome = true)
    (hany : groups.any (·.1.sameScalar d) = true) : Grouped (labels ++ [d]) (groups.map (raise d)) := by
  obtain ⟨⟨f, m⟩, hgroup, hsame⟩ := List.any_eq_true.mp hany
  have hseen : ∃ f ∈ labels, f.sameScalar d = true := ⟨f, ((h.mem_iff f m).mp hgroup).mem, hsame⟩
  have hkeys : (groups.map (LabelCounts.raise d)).map (·.1.key?) = groups.map (·.1.key?) := by
    rw [List.map_map]
    apply List.map_congr_left
    intro group _
    rw [Function.comp_apply, LabelCounts.raise]
    split_ifs <;> rfl
  refine ⟨hkeys ▸ h.distinct, fun e n => ?_, ?_⟩
  · rw [mem_map_raise_iff]
    split_ifs with he
    · simp only [isGroup_concat_of_seen hseen he, h.mem_iff]
    · rw [isGroup_concat_of_other he, h.mem_iff]
  · rw [sum_map_raise, h.sum_eq, h.countP_eq_one hd hany, List.length_append, List.length_singleton]

/-- A label that is equal to no group makes a new one. -/
theorem Grouped.append (h : Grouped labels groups) (hlabels : ∀ e ∈ labels, e.key?.isSome = true)
    (hd : d.key?.isSome = true) (hany : ¬groups.any (·.1.sameScalar d) = true) :
    Grouped (labels ++ [d]) (groups ++ [(d, 1)]) := by
  have hnew : ∀ f ∈ labels, ¬f.sameScalar d = true := by
    intro f hf hsame
    obtain ⟨e, hfe, hgroup⟩ := exists_isGroup hf ((Datum.sameScalar_iff (hlabels f hf)).mpr rfl)
    rw [Datum.sameScalar_comm] at hfe
    exact hany (List.any_eq_true.mpr ⟨_, (h.mem_iff _ _).mpr hgroup, Datum.sameScalar_trans hfe hsame⟩)
  refine ⟨?_, fun e n => ?_, ?_⟩
  · rw [List.map_append, List.nodup_append]
    refine ⟨h.distinct, List.nodup_singleton _, ?_⟩
    intro k hk l hl hkl
    obtain ⟨⟨e, n⟩, hmem, rfl⟩ := List.mem_map.mp hk
    obtain rfl := List.mem_singleton.mp hl
    have hgroup := (h.mem_iff e n).mp hmem
    exact hnew e hgroup.mem ((Datum.sameScalar_iff (hlabels e hgroup.mem)).mpr hkl)
  · rw [isGroup_concat_of_new hd hnew, List.mem_append, h.mem_iff, List.mem_singleton, Prod.mk.injEq]
  · rw [List.map_append, List.sum_append, h.sum_eq, List.length_append]
    rfl

theorem Grouped.concat (h : Grouped labels groups) (hlabels : ∀ e ∈ labels, e.key?.isSome = true)
    (hd : d.key?.isSome = true) : Grouped (labels ++ [d]) (tallyValue groups d) := by
  rw [tallyValue_eq]
  split_ifs with hany
  · exact h.raise hd hany
  · exact h.append hlabels hd hany

/-- Labels that have keys are counted in their groups. -/
theorem grouped_foldl (hlabels : ∀ d ∈ labels, d.key?.isSome = true) : Grouped labels (labels.foldl tallyValue []) := by
  induction labels using List.reverseRecOn with
  | nil => exact ⟨List.nodup_nil, fun d n => iff_of_false List.not_mem_nil fun h => List.not_mem_nil h.mem, rfl⟩
  | append_singleton labels d ih =>
      rw [List.foldl_concat]
      have hfront := fun e he => hlabels e (List.mem_append_left _ he)
      exact (ih hfront).concat hfront (hlabels d (List.mem_append_right _ (List.mem_singleton_self d)))

end

/-! ## Groups under their texts -/

/-- Notes the size of a group under its text, in the place of what was noted there. -/
def note (counts : List (String × ℕ)) (group : Datum × ℕ) : List (String × ℕ) :=
  counts.filter (·.1 != group.1.asText) ++ [(group.1.asText, group.2)]

/-- A group with the text that it is noted under. -/
def noted (group : Datum × ℕ) : String × ℕ := (group.1.asText, group.2)

/-- What is noted of some groups: under each text the last of them. -/
structure Noted (groups : List (Datum × ℕ)) (counts : List (String × ℕ)) : Prop where
  distinct : (counts.map (·.1)).Nodup
  mem_iff : ∀ text n, (text, n) ∈ counts ↔ ∃ d, Keyed.last? (·.1.asText) groups text = some (d, n)
  sublist : counts.Sublist (groups.map noted)

section

variable {groups : List (Datum × ℕ)} {counts : List (String × ℕ)}

theorem Noted.concat (h : Noted groups counts) (group : Datum × ℕ) : Noted (groups ++ [group]) (note counts group) := by
  refine ⟨?_, fun text n => ?_, ?_⟩
  · rw [note, List.map_append, List.nodup_append]
    refine ⟨h.distinct.sublist (List.filter_sublist.map _), List.nodup_singleton _, ?_⟩
    intro text htext other hother hsame
    obtain ⟨entry, hentry, rfl⟩ := List.mem_map.mp htext
    obtain rfl := List.mem_singleton.mp hother
    have hkept := (List.mem_filter.mp hentry).2
    rw [bne_iff_ne] at hkept
    exact hkept hsame
  · rw [note, List.mem_append, List.mem_filter, List.mem_singleton, bne_iff_ne, h.mem_iff, Keyed.last?_concat,
      Prod.mk.injEq]
    by_cases htext : group.1.asText = text
    · rw [if_pos htext, or_iff_right fun hold => hold.2 htext.symm]
      constructor
      · rintro ⟨-, rfl⟩
        exact ⟨group.1, rfl⟩
      · rintro ⟨d, hgroup⟩
        cases hgroup
        exact ⟨htext.symm, rfl⟩
    · rw [if_neg htext, or_iff_left fun hnew => htext hnew.1.symm, and_iff_left (Ne.symm htext)]
  · rw [note, List.map_append]
    exact (List.filter_sublist.trans h.sublist).append (List.Sublist.refl _)

theorem noted_foldl (groups : List (Datum × ℕ)) : Noted groups (groups.foldl note []) := by
  induction groups using List.reverseRecOn with
  | nil =>
      refine ⟨List.nodup_nil, fun text n => iff_of_false List.not_mem_nil ?_, List.Sublist.refl _⟩
      rintro ⟨d, h⟩
      cases h
  | append_singleton groups group ih =>
      rw [List.foldl_concat]
      exact ih.concat group

/-- Where the groups are in order of their sizes, the last one under a text is the least. -/
theorem le_of_last? (hsorted : groups.Pairwise fun a b => b.2 ≤ a.2) {text : String} {last : Datum × ℕ}
    (hlast : Keyed.last? (·.1.asText) groups text = some last) :
    ∀ group ∈ groups, group.1.asText = text → last.2 ≤ group.2 := by
  induction groups using List.reverseRecOn with
  | nil => cases hlast
  | append_singleton groups final ih =>
      intro group hgroup htext
      obtain ⟨hfront, -, hbehind⟩ := List.pairwise_append.mp hsorted
      rw [Keyed.last?_concat] at hlast
      rcases List.mem_append.mp hgroup with hold | hnew
      · split_ifs at hlast with hfinal
        · cases hlast
          exact hbehind group hold _ (List.mem_singleton_self _)
        · exact ih hfront hlast group hold htext
      · obtain rfl := List.mem_singleton.mp hnew
        rw [if_pos htext] at hlast
        cases hlast
        exact le_rfl

/-- A part of some entries with sizes has the sizes of all together only if it is all of them. -/
theorem eq_of_sublist_of_sum_eq {entries others : List (String × ℕ)} (h : entries.Sublist others)
    (hpos : ∀ entry ∈ others, 0 < entry.2) (hsum : (entries.map (·.2)).sum = (others.map (·.2)).sum) :
    entries = others := by
  induction h with
  | slnil => rfl
  | @cons entries others entry hrest _ =>
      have hle := (hrest.map (·.2)).sum_le_sum fun n _ => Nat.zero_le n
      have hentry := hpos entry List.mem_cons_self
      rw [List.map_cons, List.sum_cons] at hsum
      omega
  | cons_cons entry _ ih =>
      rw [List.map_cons, List.map_cons, List.sum_cons, List.sum_cons] at hsum
      rw [ih (fun other hother => hpos other (List.mem_cons_of_mem _ hother)) (Nat.add_left_cancel hsum)]

/-- All groups are noted exactly if no text comes twice. -/
theorem Noted.eq_iff (h : Noted groups counts) :
    counts = groups.map noted ↔ (groups.map (·.1.asText)).Nodup := by
  have htexts : (groups.map noted).map (·.1) = groups.map (·.1.asText) := by
    rw [List.map_map]
    rfl
  rw [← htexts]
  constructor
  · rintro rfl
    exact h.distinct
  · intro hdiffer
    have hall : groups.map noted ⊆ counts := by
      rintro ⟨text, n⟩ hentry
      obtain ⟨group, hgroup, hnoted⟩ := List.mem_map.mp hentry
      cases hnoted
      exact (h.mem_iff _ _).mpr ⟨group.1, Keyed.last?_of_nodup (htexts ▸ hdiffer) hgroup⟩
    exact h.sublist.eq_of_length_le (hdiffer.of_map _ |>.subperm hall).length_le

end

/-! ## Counts -/

/-- What is counted under the texts of some labels. -/
structure Tallies (labels : List Datum) (counts : List (String × ℕ)) : Prop where
  /-- The texts are in order, and each stands once. -/
  ascending : counts.Pairwise fun a b => a.1 < b.1
  /-- Under a text the least of its groups is counted. -/
  mem_iff : ∀ text n, (text, n) ∈ counts ↔ IsLeast {m | ∃ d, IsGroup labels d m ∧ d.asText = text} n
  /-- No more is counted than there is. -/
  sum_le : (counts.map (·.2)).sum ≤ labels.length
  /-- Nothing is lost exactly if no two groups have one text. -/
  sum_eq_iff : (counts.map (·.2)).sum = labels.length ↔
    ∀ d e m n, IsGroup labels d m → IsGroup labels e n → d.asText = e.asText → d = e

/-- Under every text stands the number of the labels with this text, and together they are all labels. -/
structure CountsTexts (labels : List Datum) (counts : List (String × ℕ)) : Prop where
  mem_iff : ∀ text n, (text, n) ∈ counts ↔ 0 < n ∧ n = labels.countP (·.asText == text)
  sum_eq : (counts.map (·.2)).sum = labels.length

section

variable {labels : List Datum} {groups : List (Datum × ℕ)} {counts : List (String × ℕ)}

theorem Grouped.nodup_texts_iff (h : Grouped labels groups) :
    (groups.map (·.1.asText)).Nodup ↔
      ∀ d e m n, IsGroup labels d m → IsGroup labels e n → d.asText = e.asText → d = e := by
  constructor
  · intro hdiffer d e m n hd he htext
    have hsame := List.inj_on_of_nodup_map hdiffer ((h.mem_iff d m).mpr hd) ((h.mem_iff e n).mpr he) htext
    exact congrArg Prod.fst hsame
  · intro hdiffer
    refine h.distinct.of_map _ |>.map_on ?_
    rintro ⟨d, m⟩ hd ⟨e, n⟩ he htext
    have hd := (h.mem_iff d m).mp hd
    have he := (h.mem_iff e n).mp he
    obtain rfl := hdiffer d e m n hd he htext
    rw [hd.size, he.size]

theorem Grouped.perm (h : Grouped labels groups) {others : List (Datum × ℕ)} (hperm : others.Perm groups) :
    Grouped labels others where
  distinct := (hperm.map _).nodup_iff.mpr h.distinct
  mem_iff d n := hperm.mem_iff.trans (h.mem_iff d n)
  sum_eq := (hperm.map _).sum_eq.trans h.sum_eq

/-- Groups in order of their sizes leave the least one under each text. -/
theorem Grouped.mem_noted_iff (h : Grouped labels groups) (hsorted : groups.Pairwise fun a b => b.2 ≤ a.2)
    (hnoted : Noted groups counts) (text : String) (n : ℕ) :
    (text, n) ∈ counts ↔ IsLeast {m | ∃ d, IsGroup labels d m ∧ d.asText = text} n := by
  have hleast {d : Datum} {m : ℕ} (hlast : Keyed.last? (·.1.asText) groups text = some (d, m)) :
      IsLeast {m | ∃ d, IsGroup labels d m ∧ d.asText = text} m := by
    have hmem := (h.mem_iff d m).mp (Keyed.mem_of_last?_eq_some hlast)
    have htext := Keyed.key_of_last?_eq_some hlast
    refine ⟨⟨d, hmem, htext⟩, ?_⟩
    rintro k ⟨e, he, hother⟩
    exact le_of_last? hsorted hlast (e, k) ((h.mem_iff e k).mpr he) hother
  rw [hnoted.mem_iff]
  constructor
  · rintro ⟨d, hlast⟩
    exact hleast hlast
  · intro hn
    obtain ⟨d, hd, htext⟩ := hn.1
    have hkey : text ∈ groups.map (·.1.asText) := htext ▸ List.mem_map_of_mem ((h.mem_iff d n).mpr hd)
    obtain ⟨⟨e, m⟩, hlast⟩ := Keyed.exists_last?_eq_some hkey
    rw [hn.unique (hleast hlast)]
    exact ⟨e, hlast⟩

/-- What is noted of the groups in order of their sizes, put in order of the texts, tallies the labels. -/
theorem Grouped.tallies (h : Grouped labels groups) (hsorted : groups.Pairwise fun a b => b.2 ≤ a.2)
    (hnoted : Noted groups counts) {ordered : List (String × ℕ)} (hperm : ordered.Perm counts)
    (hordered : ordered.Pairwise fun a b => a.1 ≤ b.1) : Tallies labels ordered := by
  have hall : ((groups.map noted).map (·.2)).sum = labels.length := by
    rw [List.map_map]
    exact h.sum_eq
  have hpos : ∀ entry ∈ groups.map noted, 0 < entry.2 :=
    List.forall_mem_map.mpr fun group hgroup => ((h.mem_iff group.1 group.2).mp hgroup).pos
  have hsum := (hperm.map (·.2)).sum_eq
  refine ⟨?_, fun text n => hperm.mem_iff.trans (h.mem_noted_iff hsorted hnoted text n), ?_, ?_⟩
  · have hdistinct := List.pairwise_map.mp ((hperm.map (·.1)).nodup_iff.mpr hnoted.distinct)
    exact (hordered.and hdistinct).imp fun hle => lt_of_le_of_ne hle.1 hle.2
  · rw [hsum, ← hall]
    exact (hnoted.sublist.map (·.2)).sum_le_sum fun n _ => Nat.zero_le n
  · rw [← h.nodup_texts_iff, ← hnoted.eq_iff, hsum, ← hall]
    exact ⟨eq_of_sublist_of_sum_eq hnoted.sublist hpos, fun heq => heq ▸ rfl⟩

/-- Where labels are equal exactly if they have one text, the counts are those of the texts. -/
theorem Tallies.countsTexts (h : Tallies labels counts) (htell : Datum.TextsTell labels) :
    CountsTexts labels counts := by
  have hsize {d : Datum} {m : ℕ} (hd : IsGroup labels d m) : m = labels.countP (·.asText == d.asText) := by
    rw [hd.size]
    apply List.countP_congr
    intro e he
    rw [htell d hd.mem e he, beq_iff_eq, eq_comm]
  refine ⟨fun text n => ?_, ?_⟩
  · rw [h.mem_iff]
    constructor
    · rintro ⟨⟨d, hd, rfl⟩, -⟩
      exact ⟨hd.pos, hsize hd⟩
    · rintro ⟨hpos, rfl⟩
      obtain ⟨d, hd, htext⟩ := List.countP_pos_iff.mp hpos
      rw [beq_iff_eq] at htext
      obtain ⟨e, hsame, hgroup⟩ := exists_isGroup hd ((htell d hd d hd).mpr rfl)
      obtain rfl : text = e.asText := htext.symm.trans ((htell d hd e hgroup.mem).mp hsame)
      rw [← hsize hgroup]
      refine ⟨⟨e, hgroup, rfl⟩, ?_⟩
      rintro m ⟨f, hf, hftext⟩
      rw [hsize hf, hsize hgroup, hftext]
  · rw [h.sum_eq_iff]
    intro d e m n hd he htext
    exact (hd.eq_of_same he ((htell d hd.mem e he.mem).mpr htext)).1

end

/-! ## All labels of a series -/

theorem labelCounts_eq_ok {labels : List Datum} (h : ∀ d ∈ present labels, d.key?.isSome = true) :
    labelCounts labels =
      .ok (((((present labels).foldl tallyValue []).mergeSort fun a b => decide (b.2 ≤ a.2)).foldl note []).mergeSort
        fun a b => decide (a.1 ≤ b.1)) :=
  if_pos (List.all_eq_true.mpr h)

theorem pairwise_mergeSort_by {γ δ : Type} {r : δ → δ → Prop} [DecidableRel r] (htrans : ∀ a b c, r a b → r b c → r a c)
    (htotal : ∀ a b, r a b ∨ r b a) (f : γ → δ) (items : List γ) :
    (items.mergeSort fun a b => decide (r (f a) (f b))).Pairwise fun a b => r (f a) (f b) := by
  refine (List.pairwise_mergeSort ?_ ?_ items).imp of_decide_eq_true
  · simpa only [decide_eq_true_eq] using fun a b c => htrans (f a) (f b) (f c)
  · simpa only [Bool.or_eq_true, decide_eq_true_eq] using fun a b => htotal (f a) (f b)

/-- Labels that have keys are tallied. -/
theorem exists_tallies {labels : List Datum} (h : ∀ d ∈ present labels, d.key?.isSome = true) :
    ∃ counts, labelCounts labels = .ok counts ∧ Tallies (present labels) counts := by
  have hsizes (groups : List (Datum × ℕ)) := pairwise_mergeSort_by (r := fun m n => n ≤ m)
    (fun _ _ _ h h' => h'.trans h) (fun _ _ => le_total _ _) (·.2) groups
  have htexts (counts : List (String × ℕ)) := pairwise_mergeSort_by (r := fun s t => s ≤ t)
    (fun _ _ _ => le_trans) le_total (·.1) counts
  exact ⟨_, labelCounts_eq_ok h, ((grouped_foldl h).perm (List.mergeSort_perm _ _)).tallies (hsizes _)
    (noted_foldl _) (List.mergeSort_perm _ _) (htexts _)⟩

/-! ## Labels of one kind -/

/-- The counted labels of a series of one kind are all whole numbers, all truth values, all doubles or all texts. -/
theorem present_of_kind {labels : List Datum} (hkind : (Column.infer labels).kind ≠ .mixed) :
    (∀ d ∈ present labels, ∃ n, d = .int n) ∨ (∀ d ∈ present labels, ∃ b, d = .bool b) ∨
      (∀ d ∈ present labels, ∃ x, d = .float x ∧ x.isNaN = false) ∨ ∀ d ∈ present labels, ∃ s, d = .text s := by
  simp only [present, List.mem_filter, Bool.not_eq_true']
  rw [Column.infer] at hkind ⊢
  split_ifs at hkind ⊢ with hnone hwhole htruth hreal htext
  · exact absurd rfl hkind
  · rw [Bool.and_eq_true, List.all_eq_true] at hwhole
    refine .inl fun d hd => ?_
    have hd' := hwhole.1 d hd.1
    cases d with
    | int n => exact ⟨n, rfl⟩
    | _ => cases hd'
  · rw [List.all_eq_true] at htruth
    refine .inr (.inl fun d hd => ?_)
    have hd' := htruth d hd.1
    cases d with
    | bool b => exact ⟨b, rfl⟩
    | _ => cases hd'
  · refine .inr (.inr (.inl fun d hd => ?_))
    obtain ⟨e, -, rfl⟩ := List.mem_map.mp hd.1
    exact ⟨_, rfl, hd.2⟩
  · refine .inr (.inr (.inr fun d hd => ?_))
    obtain ⟨e, -, rfl⟩ := List.mem_map.mp hd.1
    have hpresent := hd.2
    rw [Column.orNaN] at hpresent ⊢
    split_ifs at hpresent ⊢ with hetext
    · cases e with
      | text s => exact ⟨s, rfl⟩
      | _ => cases hetext
    · cases hpresent
  · exact absurd rfl hkind

/-- Labels of one kind are equal exactly if they have one text, as long as not both zeros are among them. -/
theorem textsTell_of_kind {labels : List Datum} (hkind : (Column.infer labels).kind ≠ .mixed)
    (hzeros : ¬(.float 0.0 ∈ present labels ∧ .float (-0.0) ∈ present labels)) : Datum.TextsTell (present labels) := by
  intro a ha b hb
  rcases present_of_kind hkind with h | h | h | h
  · obtain ⟨m, rfl⟩ := h a ha
    obtain ⟨n, rfl⟩ := h b hb
    exact Datum.sameScalar_int m n
  · obtain ⟨c, rfl⟩ := h a ha
    obtain ⟨c', rfl⟩ := h b hb
    exact Datum.sameScalar_bool c c'
  · obtain ⟨x, rfl, hx⟩ := h a ha
    obtain ⟨y, rfl, -⟩ := h b hb
    refine Datum.sameScalar_float hx ?_
    rintro (⟨rfl, rfl⟩ | ⟨rfl, rfl⟩)
    · exact hzeros ⟨ha, hb⟩
    · exact hzeros ⟨hb, ha⟩
  · obtain ⟨s, rfl⟩ := h a ha
    obtain ⟨t, rfl⟩ := h b hb
    exact Datum.sameScalar_text s t

/-- Labels that are no sequences and no mappings are counted, each under the text of its group. Under a text that
several groups have, the least of them is counted and the others are lost. The counts are those of the texts if
labels are equal exactly where they have one text; so it is in a series of one kind that does not hold both zeros. -/
theorem labelCounts_tallies {labels : List Datum} (hkeyed : ∀ d ∈ labels, d.key?.isSome = true) :
    ∃ counts, labelCounts labels = .ok counts ∧ Tallies (present labels) counts ∧
      (Datum.TextsTell (present labels) → CountsTexts (present labels) counts) ∧
      ((Column.infer labels).kind ≠ .mixed →
        ¬(.float 0.0 ∈ present labels ∧ .float (-0.0) ∈ present labels) → CountsTexts (present labels) counts) := by
  have hpresent : ∀ d ∈ present labels, d.key?.isSome = true := fun d hd =>
    Column.isSome_key?_infer hkeyed d (List.mem_of_mem_filter hd)
  obtain ⟨counts, hcounts, htallies⟩ := exists_tallies hpresent
  exact ⟨counts, hcounts, htallies, htallies.countsTexts,
    fun hkind hzeros => htallies.countsTexts (textsTell_of_kind hkind hzeros)⟩

/-- Labels of a series of texts, one of which is missing. -/
def gappedLabels : List Datum := [.text "in", .text "out", .missing, .text "in"]

theorem labelCounts_tallies_gapped :
    ∃ counts, labelCounts gappedLabels = .ok counts ∧ ("in", 2) ∈ counts ∧ (counts.map (·.2)).sum = 3 := by
  have hkeyed : ∀ d ∈ gappedLabels, d.key?.isSome = true := by decide
  have hpresent : present gappedLabels = [.text "in", .text "out", .text "in"] := rfl
  obtain ⟨counts, hcounts, -, -, htexts⟩ := labelCounts_tallies hkeyed
  have hexact := htexts (by decide) (by simp [hpresent])
  exact ⟨counts, hcounts, (hexact.mem_iff "in" 2).mpr (by decide), hexact.sum_eq⟩

/-- A number and two numerals of its text. -/
def likeLabels : List Datum := [.int 1, .text "1", .text "1"]

/-- The number and the numerals are counted apart and noted under one text, so that two of three labels are lost. -/
theorem not_every_label_is_counted :
    ¬ ∀ labels : List Datum, (∀ d ∈ labels, d.key?.isSome = true) → ∀ counts, labelCounts labels = .ok counts →
      CountsTexts (present labels) counts := by
  intro h
  have hkeyed : ∀ d ∈ likeLabels, d.key?.isSome = true := by decide
  obtain ⟨counts, hcounts, htallies⟩ := exists_tallies (show ∀ d ∈ present likeLabels, d.key?.isSome = true from hkeyed)
  have htexts := h likeLabels hkeyed counts hcounts
  have hall : ("1", 3) ∈ counts := (htexts.mem_iff "1" 3).mpr (by decide)
  have hnumber : IsGroup (present likeLabels) (.int 1) 1 := ⟨rfl, rfl⟩
  have hleast := ((htallies.mem_iff "1" 3).mp hall).2 ⟨.int 1, hnumber, rfl⟩
  exact absurd hleast (by decide)

end LabelCounts

end RankingEval
