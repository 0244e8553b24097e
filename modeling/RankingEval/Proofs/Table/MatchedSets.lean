/-
# The set of identifiers that a pattern matches

A series of labels may name an identifier in several rows. What a pattern matches in it is a set: an identifier
belongs to it as soon as one of its rows has a label that passes, it comes once however many rows there are, and
the order of the rows does not matter. Doubles that are not numbers are equal to nothing, so that each of their
rows counts on its own. A row without a label makes the whole series unreadable, wherever it stands, and so does
a row that passes but whose identifier no set takes.
-/

import Mathlib
import RankingEval.Proofs.Evaluation.Steps
import RankingEval.Proofs.Table.Matching

namespace RankingEval

open RankingEval.Ranking RankingEval.Evaluation

/-! ## Lists of identities as sets -/

namespace Ranking

/-- The identity is equal to nothing. -/
def Identity.isApart : Identity → Bool
  | .apart => true
  | _ => false

/-- As a set the identities found are those of some rows: no key comes twice, the keys are the same, and so is the
number of identities that are equal to nothing. -/
structure Collects (found rows : List Identity) : Prop where
  different : AllDifferent found
  collectable : ∀ id ∈ found, id.isKeyless = false
  keyed : ∀ k, .keyed k ∈ found ↔ .keyed k ∈ rows
  apart : found.countP Identity.isApart = rows.countP Identity.isApart

variable {found rows others : List Identity}

theorem mem_filterMap_key?_iff {ids : List Identity} {k : Key} :
    k ∈ ids.filterMap Identity.key? ↔ .keyed k ∈ ids := by
  simp only [List.mem_filterMap, Identity.key?_eq_some_iff, exists_eq_right]

/-- Rows with the same keys and as many identities that are equal to nothing make the same set. -/
theorem Collects.congr (h : Collects found rows) (hkeyed : ∀ k, .keyed k ∈ rows ↔ .keyed k ∈ others)
    (hapart : rows.countP Identity.isApart = others.countP Identity.isApart) : Collects found others where
  different := h.different
  collectable := h.collectable
  keyed k := (h.keyed k).trans (hkeyed k)
  apart := h.apart.trans hapart

/-- Two sets of the same rows, in any order, are the same. -/
theorem Collects.of_perm {found₁ found₂ rows₁ rows₂ : List Identity} (h₁ : Collects found₁ rows₁)
    (h₂ : Collects found₂ rows₂) (hperm : rows₁.Perm rows₂) : Collects found₁ found₂ :=
  h₁.congr (fun k => hperm.mem_iff.trans (h₂.keyed k).symm) ((hperm.countP_eq _).trans h₂.apart.symm)

/-- Rows in two parts make the set that the sets of both parts make. -/
theorem Collects.of_parts {front back found₁ found₂ : List Identity} (h : Collects found (front ++ back))
    (hfront : Collects found₁ front) (hback : Collects found₂ back) : Collects found (found₁ ++ found₂) where
  different := h.different
  collectable := h.collectable
  keyed k := by
    rw [h.keyed, List.mem_append, List.mem_append, hfront.keyed, hback.keyed]
  apart := by
    rw [h.apart, List.countP_append, List.countP_append, hfront.apart, hback.apart]

namespace Identifier

/-- What is kept of identifiers while the later ones of equal identity are left out. -/
structure Keeps (ids : List Identifier) (state : List Identifier × List Key) : Prop where
  nodup : state.2.Nodup
  seen : (state.1.map (·.identity)).filterMap Identity.key? = state.2
  kept : ∀ id ∈ state.1, id ∈ ids
  keyed : ∀ k, .keyed k ∈ state.1.map (·.identity) ↔ .keyed k ∈ ids.map (·.identity)
  apart : (state.1.map (·.identity)).countP Identity.isApart = (ids.map (·.identity)).countP Identity.isApart

/-- A key that was seen is left out. -/
theorem keep_of_seen {state : List Identifier × List Key} {id : Identifier} {k : Key}
    (hid : id.identity = .keyed k) (hseen : k ∈ state.2) : keep state id = state := by
  rw [keep, hid]
  exact if_pos (List.contains_iff_mem.mpr hseen)

/-- A new key is kept, and seen from then on. -/
theorem keep_of_new {state : List Identifier × List Key} {id : Identifier} {k : Key}
    (hid : id.identity = .keyed k) (hnew : k ∉ state.2) : keep state id = (id :: state.1, k :: state.2) := by
  rw [keep, hid]
  exact if_neg (mt List.contains_iff_mem.mp hnew)

/-- What has no key is kept in any case. -/
theorem keep_of_unkeyed {state : List Identifier × List Key} {id : Identifier}
    (hid : id.identity.key? = none) : keep state id = (id :: state.1, state.2) := by
  rw [keep, hid]

theorem Keeps.mem_seen_iff {ids : List Identifier} {state : List Identifier × List Key} (h : Keeps ids state)
    {k : Key} : k ∈ state.2 ↔ .keyed k ∈ ids.map (·.identity) := by
  rw [← h.seen, mem_filterMap_key?_iff, h.keyed]

/-- One more identifier that is kept. -/
theorem Keeps.cons {ids : List Identifier} {state : List Identifier × List Key} (h : Keeps ids state)
    (id : Identifier) {seen : List Key} (hnodup : seen.Nodup)
    (hseen : (id.identity :: state.1.map (·.identity)).filterMap Identity.key? = seen) :
    Keeps (ids ++ [id]) (id :: state.1, seen) where
  nodup := hnodup
  seen := hseen
  kept other hother := by
    rcases List.mem_cons.mp hother with rfl | hold
    · exact List.mem_append_right _ (List.mem_singleton_self _)
    · exact List.mem_append_left _ (h.kept other hold)
  keyed k := by
    rw [List.map_cons, List.mem_cons, h.keyed, List.map_append, List.mem_append, List.map_singleton,
      List.mem_singleton, or_comm]
  apart := by
    rw [List.map_cons, List.countP_cons, h.apart, List.map_append, List.countP_append, List.map_singleton,
      List.countP_singleton]

/-- One more identifier whose key was seen. -/
theorem Keeps.skip {ids : List Identifier} {state : List Identifier × List Key} (h : Keeps ids state)
    {id : Identifier} {k : Key} (hid : id.identity = .keyed k) (hseen : k ∈ state.2) :
    Keeps (ids ++ [id]) state where
  nodup := h.nodup
  seen := h.seen
  kept other hother := List.mem_append_left _ (h.kept other hother)
  keyed l := by
    rw [h.keyed, List.map_append, List.mem_append, List.map_singleton, List.mem_singleton, hid]
    constructor
    · exact Or.inl
    · rintro (hold | hsame)
      · exact hold
      · exact Identity.keyed.inj hsame ▸ h.mem_seen_iff.mp hseen
  apart := by
    rw [h.apart, List.map_append, List.countP_append, List.map_singleton, List.countP_singleton, hid]
    rfl

/-- One more identifier, whether it is kept or not. -/
theorem Keeps.step {ids : List Identifier} {state : List Identifier × List Key} (h : Keeps ids state)
    (id : Identifier) : Keeps (ids ++ [id]) (keep state id) := by
  cases hkey : id.identity.key? with
  | none =>
      rw [keep_of_unkeyed hkey]
      exact h.cons id h.nodup (by rw [List.filterMap_cons_none hkey, h.seen])
  | some k =>
      have hid := Identity.key?_eq_some_iff.mp hkey
      by_cases hseen : k ∈ state.2
      · rw [keep_of_seen hid hseen]
        exact h.skip hid hseen
      · rw [keep_of_new hid hseen]
        exact h.cons id (h.nodup.cons hseen) (by rw [List.filterMap_cons_some hkey, h.seen])

theorem keeps_foldl (ids : List Identifier) : Keeps ids (ids.foldl keep ([], [])) := by
  induction ids using List.reverseRecOn with
  | nil => exact ⟨List.nodup_nil, rfl, by simp, by simp, rfl⟩
  | append_singleton ids id ih =>
      rw [List.foldl_concat]
      exact ih.step id

/-- Distinct identifiers collect the given ones. -/
theorem collects_distinct {ids : List Identifier} (h : ∀ id ∈ ids, id.identity.isKeyless = false) :
    Collects ((distinct ids).map (·.identity)) (ids.map (·.identity)) := by
  have hkeeps := keeps_foldl ids
  have hdistinct : distinct ids = (ids.foldl keep ([], [])).1.reverse := rfl
  have hperm : ((ids.foldl keep ([], [])).1.map (·.identity)).Perm ((distinct ids).map (·.identity)) := by
    rw [hdistinct]
    exact (List.reverse_perm _).symm.map _
  constructor
  · apply AllDifferent.of_perm _ hperm
    rw [AllDifferent, hkeeps.seen]
    exact hkeeps.nodup
  · rw [List.forall_mem_map, hdistinct]
    intro id hid
    exact h id (hkeeps.kept id (List.mem_reverse.mp hid))
  · intro k
    rw [← hperm.mem_iff, hkeeps.keyed]
  · rw [← hperm.countP_eq, hkeeps.apart]

end Identifier

end Ranking

/-! ## Cells -/

/-- What has no key cannot be collected. -/
theorem Ranking.Identity.isKeyless_of_iff {floats : Bool} {d : Datum} :
    (of floats d).isKeyless = true ↔ d.key? = none := by
  rw [of]
  split
  · simp_all [isKeyless]
  · split_ifs <;> simp_all [isKeyless]
  · simp_all [isKeyless]

/-- What is missing has no text. -/
theorem Column.textOf_eq_none_iff {d : Datum} : textOf d = none ↔ d.isMissing = true := by
  rw [textOf]
  split_ifs with h <;> simp [h]

/-! ## What matches -/

namespace Labels

variable {labels : Labels} {test : String → Bool} {found : List Identifier}

/-- The identities of the rows whose label passes a test. -/
def hits (test : String → Bool) (labels : Labels) : List Identity :=
  (labels.filter (Labelled.passes test)).map (·.id.identity)

/-- The keys of the rows that pass. -/
def hitKeys (test : String → Bool) (labels : Labels) : List Key :=
  (labels.filter (Labelled.passes test)).filterMap (·.id.identity.key?)

/-- The row shows an identifier of some row that passes. -/
def isChosen (test : String → Bool) (labels : Labels) (l : Labelled) : Bool :=
  match l.id.identity.key? with
  | some k => (labels.hitKeys test).contains k
  | none => l.passes test

theorem matching_eq (test : String → Bool) (labels : Labels) :
    labels.matching test =
      if labels.all (·.label.isSome) && !(labels.filter (Labelled.passes test)).any (·.id.identity.isKeyless) then
        .ok (Identifier.distinct ((labels.filter (labels.isChosen test)).map (·.id)))
      else .error .mistyped := rfl

/-- Only a row without a label, or one that passes and whose identifier cannot be collected, stands in the way. -/
theorem matching_eq_error_iff {failure : Failure} :
    labels.matching test = .error failure ↔ failure = .mistyped ∧
      ((∃ l ∈ labels, l.label = none) ∨ ∃ l ∈ labels, l.passes test = true ∧ l.id.identity.isKeyless = true) := by
  have hobstacle : ¬(labels.all (·.label.isSome) &&
        !(labels.filter (Labelled.passes test)).any (·.id.identity.isKeyless)) = true ↔
      (∃ l ∈ labels, l.label = none) ∨ ∃ l ∈ labels, l.passes test = true ∧ l.id.identity.isKeyless = true := by
    rw [Bool.and_eq_true, Bool.not_eq_true', not_and_or, List.all_eq_true, Bool.not_eq_false, List.any_filter,
      List.any_eq_true]
    simp
  rw [matching_eq, ← hobstacle]
  split_ifs with h
  · constructor
    · rintro ⟨⟩
    · exact fun hnot => absurd h hnot.2
  · constructor
    · rintro ⟨⟩
      exact ⟨rfl, h⟩
    · rintro ⟨rfl, -⟩
      rfl

theorem mem_hitKeys_iff {k : Key} : k ∈ labels.hitKeys test ↔ .keyed k ∈ labels.hits test := by
  rw [hitKeys, hits, ← mem_filterMap_key?_iff, List.filterMap_map]
  rfl

theorem isChosen_of_keyed {l : Labelled} {k : Key} (hid : l.id.identity = .keyed k) :
    labels.isChosen test l = (labels.hitKeys test).contains k := by
  rw [isChosen, hid]
  rfl

theorem isChosen_of_unkeyed {l : Labelled} (hid : l.id.identity.key? = none) :
    labels.isChosen test l = l.passes test := by
  rw [isChosen, hid]

/-- What matches collects the identifiers of the rows that pass. -/
theorem collects_of_matching (h : labels.matching test = .ok found) :
    Collects (found.map (·.identity)) (labels.hits test) := by
  have hclear : ∀ l ∈ labels, l.passes test = true → l.id.identity.isKeyless = false := by
    intro l hl hpasses
    by_contra hkeyless
    rw [Bool.not_eq_false] at hkeyless
    have herror := matching_eq_error_iff.mpr ⟨rfl, .inr ⟨l, hl, hpasses, hkeyless⟩⟩
    cases h.symm.trans herror
  rw [matching_eq] at h
  split_ifs at h
  obtain rfl := Except.ok.inj h
  have hchosen : ∀ id ∈ (labels.filter (labels.isChosen test)).map (·.id), id.identity.isKeyless = false := by
    rw [List.forall_mem_map]
    intro l hl
    obtain ⟨hmem, hl⟩ := List.mem_filter.mp hl
    cases hid : l.id.identity with
    | keyless value =>
        rw [isChosen_of_unkeyed (by rw [hid]; rfl)] at hl
        rw [← hid]
        exact hclear l hmem hl
    | _ => rfl
  have hset := Identifier.collects_distinct hchosen
  rw [List.map_map] at hset
  refine hset.congr ?_ ?_
  · intro k
    rw [← mem_hitKeys_iff, List.mem_map]
    constructor
    · rintro ⟨l, hl, hid⟩
      have hkey := (List.mem_filter.mp hl).2
      rw [isChosen_of_keyed hid] at hkey
      exact List.contains_iff_mem.mp hkey
    · intro hk
      obtain ⟨l, hl, hid⟩ := List.mem_map.mp (mem_hitKeys_iff.mp hk)
      refine ⟨l, List.mem_filter.mpr ⟨List.mem_of_mem_filter hl, ?_⟩, hid⟩
      rw [isChosen_of_keyed hid]
      exact List.contains_iff_mem.mpr hk
  · rw [hits, List.countP_map, List.countP_map, List.countP_filter, List.countP_filter]
    apply List.countP_congr
    intro l hl
    cases hid : l.id.identity with
    | apart =>
        rw [isChosen_of_unkeyed (by rw [hid]; rfl)]
        rfl
    | _ => simp [hid, Identity.isApart]

/-- A valid pattern matches by what it occurs in. -/
theorem matchingPattern_of_compile {flags : Pattern.Flags} {source : String} {compiled : Pattern.Compiled}
    (hcompile : Pattern.compile flags source = .ok compiled) (labels : Labels) :
    labels.matchingPattern flags (.text source) = labels.matching compiled.occursIn := by
  rw [matchingPattern, hcompile]

/-- What a pattern matches has keys or is equal to nothing, so that a set takes it. -/
theorem isKeyless_of_matchingPattern {flags : Pattern.Flags} {source : String}
    (h : labels.matchingPattern flags (.text source) = .ok found) :
    ∀ id ∈ found.map (·.identity), id.isKeyless = false := by
  cases hcompile : Pattern.compile flags source with
  | error fault =>
      rw [matchingPattern, hcompile] at h
      cases h
  | ok compiled =>
      rw [matchingPattern_of_compile hcompile] at h
      exact (collects_of_matching h).collectable

end Labels

/-! ## Series -/

/-- A series of labels: rows of an identifier and a label, and the kinds of these two columns. -/
structure LabelSeries where
  /-- The kind of the identifiers. -/
  idKind : Column.Kind
  /-- The kind of the labels. -/
  labelKind : Column.Kind
  /-- An identifier and a label in each row. -/
  rows : List (Datum × Datum)

namespace LabelSeries

/-- The labels of the rows, as texts. -/
def labels (s : LabelSeries) : Labels :=
  .ofTexts ⟨s.idKind, s.rows.map (·.1)⟩ (Column.mk s.labelKind (s.rows.map (·.2))).texts

/-- The identity of the identifier in a row. -/
def identity (s : LabelSeries) (row : Datum × Datum) : Identity := .of (s.idKind == .real) row.1

/-- The identities in the rows whose label is a text that passes a test. -/
def hits (s : LabelSeries) (test : String → Bool) : List Identity :=
  (s.rows.filter fun row => (Column.textOf row.2).any test).map s.identity

variable {s : LabelSeries} {test : String → Bool} {ids : List Identifier}

theorem labels_eq (s : LabelSeries) :
    s.labels = s.rows.map fun row => ⟨⟨row.1, s.identity row⟩, Column.textOf row.2⟩ := by
  rw [labels, Labels.ofTexts, Column.identifiers, Column.texts, List.map_map, List.map_map,
    List.zip_map', List.map_map]
  rfl

theorem hits_labels (s : LabelSeries) (test : String → Bool) : s.labels.hits test = s.hits test := by
  rw [Labels.hits, labels_eq, List.filter_map, List.map_map]
  rfl

/-- Rows without a label stand in the way, and so do those that pass but whose identifier has no key. -/
theorem matching_eq_error_iff {failure : Failure} :
    s.labels.matching test = .error failure ↔ failure = .mistyped ∧
      ((∃ row ∈ s.rows, row.2.isMissing = true) ∨
        ∃ row ∈ s.rows, (Column.textOf row.2).any test = true ∧ row.1.key? = none) := by
  simp only [Labels.matching_eq_error_iff, labels_eq, List.mem_map, exists_exists_and_eq_and,
    Column.textOf_eq_none_iff, identity, Identity.isKeyless_of_iff, Labelled.passes]

/-- Rows of a series that matches match as well. -/
theorem exists_matching_of_subset (h : s.labels.matching test = .ok ids) {rows : List (Datum × Datum)}
    (hsub : ∀ row ∈ rows, row ∈ s.rows) : ∃ found, ({ s with rows } : LabelSeries).labels.matching test = .ok found := by
  cases hfound : ({ s with rows } : LabelSeries).labels.matching test with
  | ok found => exact ⟨found, rfl⟩
  | error failure =>
      obtain ⟨rfl, hobstacle⟩ := matching_eq_error_iff.mp hfound
      have herror : s.labels.matching test = .error .mistyped := by
        refine matching_eq_error_iff.mpr ⟨rfl, hobstacle.imp ?_ ?_⟩
        · exact fun ⟨row, hrow, hmissing⟩ => ⟨row, hsub row hrow, hmissing⟩
        · exact fun ⟨row, hrow, hpasses⟩ => ⟨row, hsub row hrow, hpasses⟩
      cases h.symm.trans herror

theorem collects_of_matching (h : s.labels.matching test = .ok ids) :
    Collects (ids.map (·.identity)) (s.hits test) := by
  rw [← hits_labels]
  exact Labels.collects_of_matching h

/-- Rows in another order match the same set. -/
theorem exists_matching_of_perm (h : s.labels.matching test = .ok ids) {rows : List (Datum × Datum)}
    (hperm : rows.Perm s.rows) : ∃ others, ({ s with rows } : LabelSeries).labels.matching test = .ok others ∧
      Collects (others.map (·.identity)) (ids.map (·.identity)) := by
  obtain ⟨others, hothers⟩ := exists_matching_of_subset h fun row hrow => hperm.mem_iff.mp hrow
  have hhits : (({ s with rows } : LabelSeries).hits test).Perm (s.hits test) := (hperm.filter _).map _
  exact ⟨others, hothers, (collects_of_matching hothers).of_perm (collects_of_matching h) hhits⟩

/-- Rows in two parts match what both parts match. -/
theorem exists_matching_of_parts (h : s.labels.matching test = .ok ids) {front back : List (Datum × Datum)}
    (hparts : s.rows = front ++ back) :
    ∃ first second, ({ s with rows := front } : LabelSeries).labels.matching test = .ok first ∧
      ({ s with rows := back } : LabelSeries).labels.matching test = .ok second ∧
      Collects (ids.map (·.identity)) ((first ++ second).map (·.identity)) := by
  obtain ⟨first, hfirst⟩ := exists_matching_of_subset h fun row (hrow : row ∈ front) =>
    hparts ▸ List.mem_append_left back hrow
  obtain ⟨second, hsecond⟩ := exists_matching_of_subset h fun row (hrow : row ∈ back) =>
    hparts ▸ List.mem_append_right front hrow
  have hwhole := collects_of_matching h
  rw [hits, hparts, List.filter_append, List.map_append] at hwhole
  refine ⟨first, second, hfirst, hsecond, ?_⟩
  rw [List.map_append]
  exact hwhole.of_parts (collects_of_matching hfirst) (collects_of_matching hsecond)

/-- A test of texts matches, in a series of labels, the identifiers that have some row whose label passes it. This
is a set: it does not depend on the order of the rows, and what it holds for rows in two parts is what it holds
for either part. There is none exactly if some label is missing, or if some row that passes has an identifier
without a key, which no set takes. A pattern matches by the test whether it occurs in a text, and an evaluation
whose pattern matches nothing for one of these reasons leaves everything as it was. -/
theorem matchingPattern_collects (s : LabelSeries) (test : String → Bool) :
    let found (s : LabelSeries) : Except Failure (List Identifier) := s.labels.matching test
    (∀ failure, found s = .error failure ↔ failure = .mistyped ∧
        ((∃ row ∈ s.rows, row.2.isMissing = true) ∨
          ∃ row ∈ s.rows, (Column.textOf row.2).any test = true ∧ row.1.key? = none)) ∧
      (∀ ids, found s = .ok ids →
        Collects (ids.map (·.identity)) (s.hits test) ∧
          (∀ rows, rows.Perm s.rows → ∃ others, found { s with rows } = .ok others ∧
            Collects (others.map (·.identity)) (ids.map (·.identity))) ∧
          ∀ front back, s.rows = front ++ back → ∃ first second, found { s with rows := front } = .ok first ∧
            found { s with rows := back } = .ok second ∧
              Collects (ids.map (·.identity)) ((first ++ second).map (·.identity))) ∧
      (∀ flags source compiled, Pattern.compile flags source = .ok compiled → compiled.occursIn = test →
        ∀ s : LabelSeries, s.labels.matchingPattern flags (.text source) = found s) ∧
      ∀ source rankings before failure, s.labels.matchingPattern {} (.text source) = .error failure →
        (evaluate source s.labels rankings).run.run before = (.error failure, before) := by
  refine ⟨fun failure => matching_eq_error_iff, ?_, ?_, ?_⟩
  · intro ids hids
    exact ⟨collects_of_matching hids, fun rows => exists_matching_of_perm hids,
      fun front back => exists_matching_of_parts hids⟩
  · rintro flags source compiled hcompile rfl s
    exact Labels.matchingPattern_of_compile hcompile s.labels
  · intro source rankings before failure hfailure
    exact run_evaluate_of_matching_error before hfailure rankings

/-- A series in which an identifier comes twice. -/
def repeatedSeries : LabelSeries :=
  ⟨.text, .text, [(.text "a", .text "neg"), (.text "b", .text "pos"), (.text "a", .text "pos")]⟩

/-- An identifier matches as soon as one of its rows does. -/
theorem matchingPattern_collects_repeated :
    ∃ compiled ids, Pattern.compile {} "^pos" = .ok compiled ∧
      repeatedSeries.labels.matchingPattern {} (.text "^pos") = .ok ids ∧
        Collects (ids.map (·.identity)) (repeatedSeries.hits compiled.occursIn) ∧ ids.length = 2 := by
  have hcompile : (Pattern.compile {} "^pos").isOk = true := by decide +kernel
  obtain ⟨compiled, hcompile⟩ := exists_of_isOk hcompile
  have hmatches : (repeatedSeries.labels.matchingPattern {} (.text "^pos")).toOption.any
      (·.length == 2) = true := by decide +kernel
  obtain ⟨ids, hids, hlength⟩ := exists_of_any hmatches
  obtain ⟨-, hcollects, hpattern, -⟩ := matchingPattern_collects repeatedSeries compiled.occursIn
  have hfound := (hpattern _ _ _ hcompile rfl repeatedSeries).symm.trans hids
  exact ⟨compiled, ids, hcompile, hids, (hcollects ids hfound).1, beq_iff_eq.mp hlength⟩

/-- A series without a missing label, in which a sequence is an identifier. -/
def listedSeries : LabelSeries :=
  ⟨.mixed, .text, [(.list [.text "x"], .text "pos"), (.text "b", .text "neg")]⟩

/-- A missing label is not the only obstacle: no set takes a sequence. -/
theorem not_only_missing_labels_fail :
    ¬ ∀ (s : LabelSeries) (flags : Pattern.Flags) (source : String) (compiled : Pattern.Compiled),
      Pattern.compile flags source = .ok compiled →
        (s.labels.matchingPattern flags (.text source) = .error .mistyped ↔
          ∃ row ∈ s.rows, row.2.isMissing = true) := by
  intro h
  have hcompile : (Pattern.compile {} "pos").isOk = true := by decide +kernel
  obtain ⟨compiled, hcompile⟩ := exists_of_isOk hcompile
  have hpresent : ¬∃ row ∈ listedSeries.rows, row.2.isMissing = true := by decide
  have hmatches : (listedSeries.labels.matchingPattern {} (.text "pos")).isOk = false := by decide +kernel
  cases hfound : listedSeries.labels.matchingPattern {} (.text "pos") with
  | ok ids =>
      rw [hfound] at hmatches
      cases hmatches
  | error failure =>
      have hobstacle := hfound
      rw [Labels.matchingPattern_of_compile hcompile, matching_eq_error_iff] at hobstacle
      obtain ⟨rfl, -⟩ := hobstacle
      exact hpresent ((h listedSeries {} "pos" compiled hcompile).mp hfound)

end LabelSeries

end RankingEval
