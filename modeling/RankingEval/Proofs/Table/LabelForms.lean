/-
# Labels of a mapping and labels of a series

Labels are handed over as a mapping or as a series. A mapping keeps every label as it is, while the labels of a
series are a column whose kind is inferred. As long as no label is missing, inference changes a label in one case
only: whole numbers that stand among doubles become doubles, which are shown with a point. In every other case
both forms show the same texts beside the same identifiers, so that every pattern finds the same identifiers in
them.
-/

import Mathlib
import RankingEval.Proofs.Datum.Order
import RankingEval.Proofs.Number.WholeNumbers
import RankingEval.Proofs.Table.MatchedSets

namespace RankingEval

open RankingEval.Number RankingEval.Ranking

/-! ## Texts of an inferred column -/

namespace Column

/-- The cells are numbers that are stored as doubles although some of them are whole. -/
structure Blends (cells : List Datum) : Prop where
  numbers : ∀ d ∈ cells, isNumber d = true
  whole : ∃ n, .int n ∈ cells
  real : ∃ x, .float x ∈ cells
  fit : fitTogether cells = true

variable {cells : List Datum}

theorem isPresent_of_isNumber {d : Datum} (h : isNumber d = true) : isPresent d = true := by
  cases d with
  | missing => cases h
  | _ => rfl

theorem isPresent_of_not_isMissing {d : Datum} (h : d.isMissing = false) : isPresent d = true := by
  cases d with
  | missing => cases h
  | _ => rfl

/-- A number is whole or a double. -/
theorem exists_of_isNumber {d : Datum} (h : isNumber d = true) : (∃ n, d = .int n) ∨ ∃ x, d = .float x := by
  cases d with
  | int n => exact .inl ⟨n, rfl⟩
  | float x => exact .inr ⟨x, rfl⟩
  | _ => cases h

/-- Whole numbers that stand among doubles become doubles. -/
theorem Blends.infer_eq (h : Blends cells) : infer cells = ⟨.real, cells.map fun d => .float (toReal d)⟩ := by
  obtain ⟨x, hx⟩ := h.real
  have hpresent : cells.any isPresent = true := List.any_eq_true.mpr ⟨_, hx, rfl⟩
  have hwhole : cells.all isWhole = false := List.all_eq_false.mpr ⟨_, hx, Bool.false_ne_true⟩
  have htruth : cells.all isTruth = false := List.all_eq_false.mpr ⟨_, hx, Bool.false_ne_true⟩
  have hnumbers : (cells.all fun d => isNumber d || !isPresent d) = true := by
    rw [List.all_eq_true]
    intro d hd
    rw [h.numbers d hd, Bool.true_or]
  have htake : cells.takeWhile isPresent = cells :=
    List.takeWhile_eq_self_iff.mpr fun d hd => isPresent_of_isNumber (h.numbers d hd)
  rw [infer, hpresent, hwhole, htruth, hnumbers, htake, h.fit]
  rfl

/-- A whole number is stored as the double nearest to it. -/
theorem stored_int {n : ℤ} {x : Float} (h : ofInt? n = some x) : (Datum.int n).stored = .ok x := by
  have hstored : (Datum.int n).stored = Datum.ofInt n := by
    simp only [Datum.stored, Datum.score, Datum.operand]
  rw [hstored]
  unfold Datum.ofInt
  split
  case h_1 y hy => exact congrArg Except.ok (Option.some.inj (hy.symm.trans h))
  case h_2 hnone => cases hnone.symm.trans h

theorem natAbs_lt_of_fitTogether (h : fitTogether cells = true) {n : ℤ} (hn : .int n ∈ cells) :
    n.natAbs < 2 ^ 65 := by
  rw [fitTogether, Bool.or_eq_true, List.all_eq_true, List.all_eq_true] at h
  rcases h with hwithin | hwithin
  all_goals
    have hrange := hwithin _ hn
    simp only [Bool.and_eq_true, decide_eq_true_eq, Nat.pow_eq] at hrange
    omega

/-- None of them gets lost on the way. -/
theorem Blends.isMissing_toReal (h : Blends cells) (hpresent : ∀ d ∈ cells, d.isMissing = false) :
    ∀ d ∈ cells, (Datum.float (toReal d)).isMissing = false := by
  intro d hd
  rcases exists_of_isNumber (h.numbers d hd) with ⟨n, rfl⟩ | ⟨x, rfl⟩
  · obtain ⟨x, hx, hnumber⟩ := exists_ofInt? (natAbs_lt_of_fitTogether h.fit hd)
    rw [toReal, stored_int hx]
    exact hnumber
  · exact hpresent _ hd

/-- Where no cell is missing, a column of doubles that does not blend was one before. -/
theorem exists_float_of_not_blends (h : ¬Blends cells) (hpresent : ∀ d ∈ cells, d.isMissing = false)
    (hreal : ((cells.all fun d => isNumber d || !isPresent d) && !cells.all isWhole
      && fitTogether (cells.takeWhile isPresent)) = true) :
    ∀ d ∈ cells, ∃ x, d = .float x := by
  have htake : cells.takeWhile isPresent = cells :=
    List.takeWhile_eq_self_iff.mpr fun d hd => isPresent_of_not_isMissing (hpresent d hd)
  rw [Bool.and_eq_true, Bool.and_eq_true, htake, Bool.not_eq_true', List.all_eq_true, List.all_eq_false] at hreal
  obtain ⟨⟨hall, other, hother, hnotWhole⟩, hfit⟩ := hreal
  have hnumbers : ∀ d ∈ cells, isNumber d = true := by
    intro d hd
    have hd' := hall d hd
    rwa [isPresent_of_not_isMissing (hpresent d hd), Bool.not_true, Bool.or_false] at hd'
  intro d hd
  rcases exists_of_isNumber (hnumbers d hd) with ⟨n, rfl⟩ | hfloat
  · rcases exists_of_isNumber (hnumbers other hother) with ⟨m, rfl⟩ | ⟨x, rfl⟩
    · exact absurd rfl hnotWhole
    · exact absurd ⟨hnumbers, ⟨n, hd⟩, ⟨x, hother⟩, hfit⟩ h
  · exact hfloat

/-- Where no label is missing and the labels do not blend, each has the text that it has on its own. -/
theorem texts_infer_of_not_blends (h : ¬Blends cells) (hpresent : ∀ d ∈ cells, d.isMissing = false) :
    (infer cells).texts = cells.map textOf := by
  rw [infer]
  split_ifs with hnone hwhole htruth hreal htext
  · rfl
  · rfl
  · rfl
  · rw [texts, List.map_map]
    apply List.map_congr_left
    intro d hd
    obtain ⟨x, rfl⟩ := exists_float_of_not_blends h hpresent hreal d hd
    rfl
  · rw [Bool.and_eq_true, List.all_eq_true] at htext
    rw [texts, List.map_map]
    apply List.map_congr_left
    intro d hd
    have htextual := htext.1 d hd
    rw [hpresent d hd, Bool.or_false] at htextual
    exact congrArg textOf (if_pos htextual)
  · rfl

/-- Inference takes no key away. -/
theorem isSome_key?_infer (h : ∀ d ∈ cells, d.key?.isSome = true) :
    ∀ d ∈ (infer cells).cells, d.key?.isSome = true := by
  rw [infer]
  split_ifs
  · exact h
  · exact h
  · exact h
  · exact List.forall_mem_map.mpr fun d _ => Datum.isSome_key?_float _
  · rw [List.forall_mem_map]
    intro d hd
    rw [orNaN]
    split_ifs
    · exact h d hd
    · exact Datum.isSome_key?_float _
  · exact h

end Column

/-! ## Mappings -/

/-- The entries of a mapping: each has a key, and no key comes twice. -/
structure IsMapping (entries : List (Datum × Datum)) : Prop where
  keyed : ∀ entry ∈ entries, entry.1.key?.isSome = true
  different : (entries.map (·.1.key?)).Nodup

instance (entries : List (Datum × Datum)) : Decidable (IsMapping entries) :=
  decidable_of_iff
    ((∀ entry ∈ entries, entry.1.key?.isSome = true) ∧ (entries.map (·.1.key?)).Nodup)
    ⟨fun h => ⟨h.1, h.2⟩, fun h => ⟨h.keyed, h.different⟩⟩

/-- An entry whose label is stored as a double. -/
def Labels.blended (entry : Datum × Datum) : Datum × Datum := (entry.1, .float (Column.toReal entry.2))

theorem IsMapping.blended {entries : List (Datum × Datum)} (h : IsMapping entries) :
    IsMapping (entries.map Labels.blended) where
  keyed := List.forall_mem_map.mpr h.keyed
  different := by
    rw [List.map_map]
    exact h.different

namespace Labels

/-- Enters a label under its identifier. -/
def enter (kept : List (Key × Datum × Datum)) (entry : Datum × Datum) :
    Except Failure (List (Key × Datum × Datum)) :=
  match entry.1.key? with
  | some k => .ok (put kept k entry.1 entry.2)
  | none => .error .mistyped

theorem ofMapping_eq_bind (entries : List (Datum × Datum)) :
    ofMapping entries = entries.foldlM enter [] >>= fun kept =>
      .ok (ofTexts (.infer (kept.map (·.2.1))) (kept.map fun entry => Column.textOf entry.2.2)) := rfl

/-- Different entries are all kept, in their order. -/
theorem exists_foldlM_enter {entries : List (Datum × Datum)} (h : IsMapping entries) :
    ∃ kept, entries.foldlM enter [] = .ok kept ∧ kept.map (fun entry => some entry.1) = entries.map (·.1.key?) ∧
      kept.map (·.2) = entries := by
  induction entries using List.reverseRecOn with
  | nil => exact ⟨[], rfl, rfl, rfl⟩
  | append_singleton entries entry ih =>
      obtain ⟨hkeyed, hdifferent⟩ := h
      rw [List.map_append, List.nodup_append] at hdifferent
      obtain ⟨kept, hfold, hkeys, hkept⟩ :=
        ih ⟨fun other hother => hkeyed other (List.mem_append_left _ hother), hdifferent.1⟩
      obtain ⟨k, hk⟩ := Option.isSome_iff_exists.mp
        (hkeyed entry (List.mem_append_right _ (List.mem_singleton_self entry)))
      have hfresh : ¬kept.any (·.1 == k) = true := by
        intro hold
        obtain ⟨old, hmem, hsame⟩ := List.any_eq_true.mp hold
        have hkey : some k ∈ entries.map (·.1.key?) := by
          rw [← hkeys, List.mem_map]
          exact ⟨old, hmem, congrArg some (beq_iff_eq.mp hsame)⟩
        exact hdifferent.2.2 _ hkey _ (List.mem_singleton_self _) hk.symm
      refine ⟨kept ++ [(k, entry.1, entry.2)], ?_, ?_, ?_⟩
      · rw [List.foldlM_append, hfold]
        change enter kept entry >>= pure = _
        rw [enter, hk]
        dsimp only
        rw [put, if_neg hfresh]
        rfl
      · rw [List.map_append, List.map_append, hkeys, List.map_singleton, List.map_singleton, hk]
      · rw [List.map_append, hkept, List.map_singleton]

/-- A mapping shows each of its labels as it is. -/
theorem ofMapping_eq {entries : List (Datum × Datum)} (h : IsMapping entries) :
    ofMapping entries =
      .ok (ofTexts (.infer (entries.map (·.1))) (entries.map fun entry => Column.textOf entry.2)) := by
  obtain ⟨kept, hfold, -, rfl⟩ := exists_foldlM_enter h
  rw [ofMapping_eq_bind, hfold, List.map_map, List.map_map]
  rfl

variable {entries : List (Datum × Datum)}

/-- Where labels do not blend, both forms show the same. -/
theorem ofMapping_eq_ofRows (h : IsMapping entries) (hpresent : ∀ entry ∈ entries, entry.2.isMissing = false)
    (hblends : ¬Column.Blends (entries.map (·.2))) : ofMapping entries = .ok (ofRows entries) := by
  rw [ofMapping_eq h, ofRows,
    Column.texts_infer_of_not_blends hblends (List.forall_mem_map.mpr hpresent), List.map_map]
  rfl

/-- Where they blend, a series shows what a mapping to the doubles shows. -/
theorem ofMapping_blended_eq_ofRows (h : IsMapping entries) (hblends : Column.Blends (entries.map (·.2))) :
    ofMapping (entries.map blended) = .ok (ofRows entries) := by
  rw [ofMapping_eq h.blended, ofRows, hblends.infer_eq, Column.texts, List.map_map, List.map_map, List.map_map,
    List.map_map]
  rfl

theorem mem_ofTexts {ids : Column} {texts : List (Option String)} {l : Labelled} (h : l ∈ ofTexts ids texts) :
    l.id ∈ ids.identifiers ∧ l.label ∈ texts := by
  obtain ⟨⟨id, label⟩, hmem, rfl⟩ := List.mem_map.mp h
  exact List.of_mem_zip hmem

/-- Where every identifier has a key and no label is missing, a test can be made. -/
theorem exists_matching_ofTexts {ids : Column} {texts : List (Option String)}
    (hkeyed : ∀ d ∈ ids.cells, d.key?.isSome = true) (htexts : ∀ text ∈ texts, text.isSome = true)
    (test : String → Bool) : ∃ found, (ofTexts ids texts).matching test = .ok found := by
  cases hfound : (ofTexts ids texts).matching test with
  | ok found => exact ⟨found, rfl⟩
  | error failure =>
      obtain ⟨-, ⟨l, hl, hmissing⟩ | ⟨l, hl, -, hkeyless⟩⟩ := matching_eq_error_iff.mp hfound
      · have htext := htexts _ (mem_ofTexts hl).2
        rw [hmissing] at htext
        cases htext
      · obtain ⟨d, hd, hid⟩ := List.mem_map.mp (mem_ofTexts hl).1
        have hkey := hkeyed d hd
        rw [← hid, Identity.isKeyless_of_iff] at hkeyless
        rw [hkeyless] at hkey
        cases hkey

/-- A mapping with all its labels matches by every test. -/
theorem exists_matching_ofMapping (h : IsMapping entries)
    (hpresent : ∀ entry ∈ entries, entry.2.isMissing = false) (test : String → Bool) :
    ∃ ids, (ofMapping entries >>= (·.matching test)) = .ok ids := by
  have hkeyed := Column.isSome_key?_infer (List.forall_mem_map.mpr h.keyed)
  have htexts : ∀ text ∈ entries.map fun entry => Column.textOf entry.2, text.isSome = true := by
    rw [List.forall_mem_map]
    intro entry hentry
    rw [Column.textOf, hpresent entry hentry]
    rfl
  obtain ⟨ids, hids⟩ := exists_matching_ofTexts hkeyed htexts test
  refine ⟨ids, ?_⟩
  rw [ofMapping_eq h, ← hids]
  rfl

/-- So does a series of them. -/
theorem exists_matching_ofRows (h : IsMapping entries)
    (hpresent : ∀ entry ∈ entries, entry.2.isMissing = false) (test : String → Bool) :
    ∃ ids, (ofRows entries).matching test = .ok ids := by
  by_cases hblends : Column.Blends (entries.map (·.2))
  · have hreal : ∀ entry ∈ entries.map blended, entry.2.isMissing = false :=
      List.forall_mem_map.mpr
        (List.forall_mem_map.mp (hblends.isMissing_toReal (List.forall_mem_map.mpr hpresent)))
    obtain ⟨ids, hids⟩ := exists_matching_ofMapping h.blended hreal test
    rw [ofMapping_blended_eq_ofRows h hblends] at hids
    exact ⟨ids, hids⟩
  · obtain ⟨ids, hids⟩ := exists_matching_ofMapping h hpresent test
    rw [ofMapping_eq_ofRows h hpresent hblends] at hids
    exact ⟨ids, hids⟩

/-- A mapping and the series of its entries match the same identifiers, unless the labels are numbers and whole
numbers stand among doubles. Then the series matches what the mapping to these numbers as doubles matches. As long
as no label is missing, every valid pattern finds some set in both forms, and so does any other test of texts. -/
theorem matchingPattern_forms (hmapping : IsMapping entries)
    (hpresent : ∀ entry ∈ entries, entry.2.isMissing = false) (flags : Pattern.Flags) (pattern : Datum) :
    let byMapping (entries : List (Datum × Datum)) : Except Failure (List Identifier) :=
      ofMapping entries >>= (·.matchingPattern flags pattern)
    let bySeries (entries : List (Datum × Datum)) : Except Failure (List Identifier) :=
      (ofRows entries).matchingPattern flags pattern
    (¬Column.Blends (entries.map (·.2)) → byMapping entries = bySeries entries) ∧
      (Column.Blends (entries.map (·.2)) → byMapping (entries.map blended) = bySeries entries) ∧
      (∀ source compiled, pattern = .text source → Pattern.compile flags source = .ok compiled →
        ∃ ids others, byMapping entries = .ok ids ∧ bySeries entries = .ok others) ∧
      ∀ test : String → Bool,
        (¬Column.Blends (entries.map (·.2)) →
          (ofMapping entries >>= (·.matching test)) = (ofRows entries).matching test) ∧
        (Column.Blends (entries.map (·.2)) →
          (ofMapping (entries.map blended) >>= (·.matching test)) = (ofRows entries).matching test) ∧
        ∃ ids others, (ofMapping entries >>= (·.matching test)) = .ok ids ∧
          (ofRows entries).matching test = .ok others := by
  dsimp only
  have hsame (hblends : ¬Column.Blends (entries.map (·.2)))
      (ask : Labels → Except Failure (List Identifier)) : ofMapping entries >>= ask = ask (ofRows entries) := by
    rw [ofMapping_eq_ofRows hmapping hpresent hblends]
    rfl
  have hblended (hblends : Column.Blends (entries.map (·.2)))
      (ask : Labels → Except Failure (List Identifier)) :
      ofMapping (entries.map blended) >>= ask = ask (ofRows entries) := by
    rw [ofMapping_blended_eq_ofRows hmapping hblends]
    rfl
  have hfound (test : String → Bool) : ∃ ids others, (ofMapping entries >>= (·.matching test)) = .ok ids ∧
      (ofRows entries).matching test = .ok others := by
    obtain ⟨ids, hids⟩ := exists_matching_ofMapping hmapping hpresent test
    obtain ⟨others, hothers⟩ := exists_matching_ofRows hmapping hpresent test
    exact ⟨ids, others, hids, hothers⟩
  refine ⟨fun h => hsame h _, fun h => hblended h _, ?_,
    fun test => ⟨fun h => hsame h _, fun h => hblended h _, hfound test⟩⟩
  rintro source compiled rfl hcompile
  simp only [matchingPattern_of_compile hcompile]
  exact hfound compiled.occursIn

/-- Entries with labels of several kinds. -/
def variedEntries : List (Datum × Datum) :=
  [(.text "a", .int 1), (.text "b", .bool true), (.int 3, .text "x1"), (.float 4.5, .float 0.5)]

/-- Labels of several kinds keep their texts in both forms. -/
theorem matchingPattern_forms_varied :
    ∃ ids, (ofMapping variedEntries >>= (·.matchingPattern {} (.text "1$"))) = .ok ids ∧
      (ofRows variedEntries).matchingPattern {} (.text "1$") = .ok ids ∧ ids.length = 2 := by
  have hblends : ¬Column.Blends (variedEntries.map (·.2)) := by
    intro h
    have hnumbers := h.numbers (.bool true) (by simp [variedEntries])
    cases hnumbers
  have hmapping : IsMapping variedEntries := by decide +kernel
  obtain ⟨hsame, -⟩ := matchingPattern_forms hmapping (by decide +kernel) {} (.text "1$")
  have hmatches : ((ofRows variedEntries).matchingPattern {} (.text "1$")).toOption.any (·.length == 2) = true := by
    decide +kernel
  obtain ⟨ids, hids, hlength⟩ := exists_of_any hmatches
  exact ⟨ids, (hsame hblends).trans hids, hids, beq_iff_eq.mp hlength⟩

/-- Entries whose labels are a whole number and a double. -/
def mixedNumbers : List (Datum × Datum) := [(.text "a", .int 1), (.text "b", .float 2.5)]

/-- A whole number that stands among doubles has another text in a series, so that not every pattern finds the
same identifiers in both forms. -/
theorem not_every_form_matches_alike :
    ¬ ∀ (entries : List (Datum × Datum)) (pattern : Datum), IsMapping entries → entries ≠ [] →
      (∀ entry ∈ entries, entry.2.isMissing = false) → ∀ ids others,
        (ofMapping entries >>= (·.matchingPattern {} pattern)) = .ok ids →
          (ofRows entries).matchingPattern {} pattern = .ok others →
            Collects (ids.map (·.identity)) (others.map (·.identity)) := by
  intro h
  have hmapping : (ofMapping mixedNumbers >>= (·.matchingPattern {} (.text "^1$"))).toOption.any
      (·.any (·.identity.key? == some (.text "a"))) = true := by decide +kernel
  have hseries : ((ofRows mixedNumbers).matchingPattern {} (.text "^1$")).toOption.any (·.isEmpty) = true := by
    decide +kernel
  obtain ⟨ids, hids, hfound⟩ := exists_of_any hmapping
  obtain ⟨others, hothers, hnone⟩ := exists_of_any hseries
  obtain rfl := List.isEmpty_iff.mp hnone
  obtain ⟨id, hid, hkey⟩ := List.any_eq_true.mp hfound
  have hcollects := h mixedNumbers (.text "^1$") (by decide +kernel) (by decide) (by decide +kernel) ids [] hids hothers
  have hkeyed := (hcollects.keyed (.text "a")).mp
    (List.mem_map.mpr ⟨id, hid, Identity.key?_eq_some_iff.mp (beq_iff_eq.mp hkey)⟩)
  cases hkeyed

end Labels

end RankingEval
