/-
# Data in order

Not all data can be compared. Those that can be compared with each other are in order: the comparison turns
around with its sides, and what stands no higher than something stands no higher than what is above it. For
sequences this rests on the equality of items, which is an equivalence wherever the comparison asks for it.
-/

import Mathlib
import RankingEval.Datum.Compare

namespace RankingEval

/-! ## Keys -/

namespace Key

/-- The place of a key among those that can be compared: numbers with the infinities around them, and texts. -/
def rank? : Key → Option (Lex (WithBot (WithTop ℚ) ⊕ String))
  | .number value => some (toLex (.inl ((value : WithTop ℚ) : WithBot (WithTop ℚ))))
  | .infinite negative => some (toLex (.inl (if negative then ⊥ else ((⊤ : WithTop ℚ) : WithBot (WithTop ℚ)))))
  | .text s => some (toLex (.inr s))
  | _ => none

theorem compareOfLessAndEq_eq_compare {γ : Type} [LinearOrder γ] (a b : γ) :
    compareOfLessAndEq a b = compare a b := by
  rw [compareOfLessAndEq]
  rcases lt_trichotomy a b with h | h | h
  · rw [if_pos h, compare_lt_iff_lt.mpr h]
  · rw [if_neg h.not_lt, if_pos h, compare_eq_iff_eq.mpr h]
  · rw [if_neg h.not_gt, if_neg h.ne', compare_gt_iff_gt.mpr h]

theorem compare_map {γ δ : Type} [LinearOrder γ] [LinearOrder δ] {f : γ → δ} (hf : StrictMono f) (a b : γ) :
    compare (f a) (f b) = compare a b := by
  rw [← cmp_eq_compare, ← cmp_eq_compare, hf.cmp_map_eq]

theorem strictMono_number : StrictMono fun value : ℚ =>
    (toLex (.inl ((value : WithTop ℚ) : WithBot (WithTop ℚ))) : Lex (WithBot (WithTop ℚ) ⊕ String)) :=
  fun _ _ h => Sum.Lex.inl_lt_inl_iff.mpr (WithBot.coe_lt_coe.mpr (WithTop.coe_lt_coe.mpr h))

theorem strictMono_text : StrictMono fun s : String =>
    (toLex (.inr s) : Lex (WithBot (WithTop ℚ) ⊕ String)) :=
  fun _ _ h => Sum.Lex.inr_lt_inr_iff.mpr h

/-- Keys that can be compared are compared by their places. -/
theorem exists_rank_of_compare? {k l : Key} (h : (k.compare? l).isSome = true) :
    ∃ p q, k.rank? = some p ∧ l.rank? = some q ∧ k.compare? l = some (compare p q) := by
  have hbot (x : WithTop ℚ) : ((⊥ : WithBot (WithTop ℚ)) < x) := WithBot.bot_lt_coe x
  have htop (x : ℚ) : ((x : WithTop ℚ) : WithBot (WithTop ℚ)) < (⊤ : WithTop ℚ) :=
    WithBot.coe_lt_coe.mpr (WithTop.coe_lt_top x)
  cases k <;> cases l <;> first
    | exact absurd h Bool.false_ne_true
    | refine ⟨_, _, rfl, rfl, congrArg some ?_⟩
  case number.number a b => rw [compareOfLessAndEq_eq_compare, compare_map strictMono_number]
  case number.infinite a negative =>
    cases negative
    · exact (compare_lt_iff_lt.mpr (Sum.Lex.inl_lt_inl_iff.mpr (htop a))).symm
    · exact (compare_gt_iff_gt.mpr (Sum.Lex.inl_lt_inl_iff.mpr (hbot a))).symm
  case infinite.number negative a =>
    cases negative
    · exact (compare_gt_iff_gt.mpr (Sum.Lex.inl_lt_inl_iff.mpr (htop a))).symm
    · exact (compare_lt_iff_lt.mpr (Sum.Lex.inl_lt_inl_iff.mpr (hbot a))).symm
  case infinite.infinite a b =>
    cases a <;> cases b
    · exact (compare_eq_iff_eq.mpr rfl).symm
    · exact (compare_gt_iff_gt.mpr (Sum.Lex.inl_lt_inl_iff.mpr (hbot _))).symm
    · exact (compare_lt_iff_lt.mpr (Sum.Lex.inl_lt_inl_iff.mpr (hbot _))).symm
    · exact (compare_eq_iff_eq.mpr rfl).symm
  case text.text s t => rw [compareOfLessAndEq_eq_compare, compare_map strictMono_text]

theorem swap_compare? {k l : Key} (h : (k.compare? l).isSome = true) (h' : (l.compare? k).isSome = true) :
    l.compare? k = (k.compare? l).map Ordering.swap := by
  obtain ⟨p, q, hp, hq, hcompare⟩ := exists_rank_of_compare? h
  obtain ⟨q', p', hq', hp', hcompare'⟩ := exists_rank_of_compare? h'
  obtain rfl : p = p' := Option.some.inj (hp.symm.trans hp')
  obtain rfl : q = q' := Option.some.inj (hq.symm.trans hq')
  rw [hcompare, hcompare', Option.map_some, ← Std.OrientedOrd.eq_swap]

theorem compare?_trans {k l m : Key} (hkl : (k.compare? l).isSome = true)
    (hlm : (l.compare? m).isSome = true) (hkm : (k.compare? m).isSome = true)
    (h : k.compare? l ≠ some .gt) (h' : l.compare? m ≠ some .gt) : k.compare? m ≠ some .gt := by
  obtain ⟨p, q, hp, hq, hcompare⟩ := exists_rank_of_compare? hkl
  obtain ⟨q', r, hq', hr, hcompare'⟩ := exists_rank_of_compare? hlm
  obtain ⟨p', r', hp', hr', hcompare''⟩ := exists_rank_of_compare? hkm
  obtain rfl : p = p' := Option.some.inj (hp.symm.trans hp')
  obtain rfl : q = q' := Option.some.inj (hq.symm.trans hq')
  obtain rfl : r = r' := Option.some.inj (hr.symm.trans hr')
  rw [hcompare, Ne, Option.some.injEq, ← Ne, compare_le_iff_le] at h
  rw [hcompare', Ne, Option.some.injEq, ← Ne, compare_le_iff_le] at h'
  rw [hcompare'', Ne, Option.some.injEq, ← Ne, compare_le_iff_le]
  exact h.trans h'

theorem eq_of_compare? {k l : Key} (h : k.compare? l = some .eq) : k = l := by
  cases k <;> cases l <;> first
    | cases h
    | skip
  case number.number a b =>
    have hcompare := Option.some.inj h
    rw [compareOfLessAndEq_eq_compare, compare_eq_iff_eq] at hcompare
    rw [hcompare]
  case number.infinite a negative =>
    cases negative <;> cases h
  case infinite.number negative a =>
    cases negative <;> cases h
  case infinite.infinite a b =>
    cases a <;> cases b <;> first | rfl | cases h
  case text.text s t =>
    have hcompare := Option.some.inj h
    rw [compareOfLessAndEq_eq_compare, compare_eq_iff_eq] at hcompare
    rw [hcompare]

end Key

namespace Datum

/-! ## Cases -/

theorem isSome_key?_float (x : Float) : (float x).key?.isSome = true := by
  rw [key?]
  split <;> rfl

/-- A datum is a scalar with a key, a sequence or a mapping, and what holds of the parts may be used for the
whole. -/
theorem inductionOn {motive : Datum → Prop} (d : Datum) (scalar : ∀ a k, a.key? = some k → motive a)
    (list : ∀ items, (∀ item ∈ items, motive item) → motive (.list items))
    (map : ∀ entries, (∀ entry ∈ entries, motive entry.2) → motive (.map entries)) : motive d := by
  match d with
  | .list items => exact list items fun item _ => inductionOn item scalar list map
  | .map entries => exact map entries fun entry _ => inductionOn entry.2 scalar list map
  | .missing => exact scalar _ _ rfl
  | .bool b => exact scalar _ _ rfl
  | .int n => exact scalar _ _ rfl
  | .float x =>
      obtain ⟨k, hk⟩ := Option.isSome_iff_exists.mp (isSome_key?_float x)
      exact scalar _ k hk
  | .text s => exact scalar _ _ rfl
termination_by sizeOf d
decreasing_by
  · have hitem := List.sizeOf_lt_of_mem (by assumption : item ∈ items)
    simp
    omega
  · have hentry := List.sizeOf_lt_of_mem (by assumption : entry ∈ entries)
    obtain ⟨key, value⟩ := entry
    simp at hentry ⊢
    omega

theorem same_of_key {a : Datum} {k : Key} (ha : a.key? = some k) (b : Datum) :
    a.same b = true ↔ k ≠ .nan ∧ b.key? = some k := by
  rw [same, ha]
  · cases b.key? with
    | none => cases k <;> simp
    | some l => cases k <;> simp <;> exact eq_comm
  · rintro xs ys rfl
    cases ha
  · rintro es fs rfl
    cases ha

theorem compare?_of_key {a : Datum} {k : Key} (ha : a.key? = some k) (b : Datum) :
    a.compare? b = b.key?.bind k.compare? := by
  rw [compare?, ha]
  · cases b.key? <;> rfl
  · rintro xs ys rfl
    cases ha

/-- What is equal to a sequence is a sequence. -/
theorem exists_of_list_same {xs : List Datum} {b : Datum} (h : (list xs).same b = true) :
    ∃ ys, b = .list ys ∧ sameAll xs ys = true := by
  cases b with
  | list ys =>
      rw [same] at h
      exact ⟨ys, rfl, h⟩
  | _ => cases h

/-- What is equal to a mapping is a mapping. -/
theorem exists_of_map_same {es : List (Datum × Datum)} {b : Datum} (h : (map es).same b = true) :
    ∃ fs, b = .map fs ∧ es.length = fs.length ∧ sameEntries es fs = true := by
  cases b with
  | map fs =>
      rw [same, Bool.and_eq_true, beq_iff_eq] at h
      exact ⟨fs, rfl, h⟩
  | _ => cases h

theorem exists_of_list_compare? {xs : List Datum} {b : Datum} (h : ((list xs).compare? b).isSome = true) :
    ∃ ys, b = .list ys := by
  cases b with
  | list ys => exact ⟨ys, rfl⟩
  | _ => cases h

theorem not_compare?_map (es : List (Datum × Datum)) (b : Datum) : (map es).compare? b = none := by
  cases b <;> rfl

/-! ## Equality -/

theorem sameEntries_iff {es fs : List (Datum × Datum)} :
    sameEntries es fs = true ↔
      ∀ e ∈ es, ∃ f ∈ fs, sameScalar e.1 f.1 = true ∧ e.2.same f.2 = true := by
  induction es with
  | nil => simp [sameEntries]
  | cons e es ih =>
      obtain ⟨key, value⟩ := e
      simp only [sameEntries, Bool.and_eq_true, List.any_eq_true, List.forall_mem_cons, ih]

theorem sameScalar_trans {a b c : Datum} (h : a.sameScalar b = true) (h' : b.sameScalar c = true) :
    a.sameScalar c = true := by
  rw [sameScalar] at h h' ⊢
  cases ha : a.key? <;> cases hb : b.key? <;> cases hc : c.key? <;> simp_all

theorem sameAll_trans {xs ys zs : List Datum}
    (ih : ∀ x ∈ xs, ∀ y z, x.same y = true → y.same z = true → x.same z = true)
    (h : sameAll xs ys = true) (h' : sameAll ys zs = true) : sameAll xs zs = true := by
  induction xs generalizing ys zs with
  | nil =>
      cases ys with
      | nil => exact h'
      | cons y ys => cases h
  | cons x xs ihs =>
      cases ys with
      | nil => cases h
      | cons y ys =>
          cases zs with
          | nil => cases h'
          | cons z zs =>
              rw [sameAll, Bool.and_eq_true] at h h' ⊢
              exact ⟨ih x List.mem_cons_self y z h.1 h'.1,
                ihs (fun x hx => ih x (List.mem_cons_of_mem _ hx)) h.2 h'.2⟩

theorem same_trans {a b c : Datum} (h : a.same b = true) (h' : b.same c = true) : a.same c = true := by
  induction a using inductionOn generalizing b c with
  | scalar a k ha =>
      rw [same_of_key ha] at h ⊢
      rwa [same_of_key h.2] at h'
  | list xs ih =>
      obtain ⟨ys, rfl, hys⟩ := exists_of_list_same h
      obtain ⟨zs, rfl, hzs⟩ := exists_of_list_same h'
      rw [same]
      exact sameAll_trans (fun x hx y z hxy hyz => ih x hx hxy hyz) hys hzs
  | map es ih =>
      obtain ⟨fs, rfl, hlength, hes⟩ := exists_of_map_same h
      obtain ⟨gs, rfl, hlength', hfs⟩ := exists_of_map_same h'
      rw [sameEntries_iff] at hes hfs
      rw [same, Bool.and_eq_true, beq_iff_eq, sameEntries_iff]
      refine ⟨hlength.trans hlength', fun e he => ?_⟩
      obtain ⟨f, hf, hkey, hvalue⟩ := hes e he
      obtain ⟨g, hg, hkey', hvalue'⟩ := hfs f hf
      exact ⟨g, hg, sameScalar_trans hkey hkey', ih e he hvalue hvalue'⟩

/-- Items that are equal are so in either direction, if the second can be compared with the first. -/
theorem sameAll_symm {xs ys : List Datum}
    (ih : ∀ x ∈ xs, ∀ y, x.same y = true → (y.compare? x).isSome = true → y.same x = true)
    (h : sameAll xs ys = true) (hmeet : (compareAll? ys xs).isSome = true) : sameAll ys xs = true := by
  induction xs generalizing ys with
  | nil => cases ys <;> first | rfl | cases h
  | cons x xs ihs =>
      cases ys with
      | nil => cases h
      | cons y ys =>
          rw [sameAll, Bool.and_eq_true] at h
          rw [compareAll?] at hmeet
          have hyx : y.same x = true := by
            by_contra hne
            rw [if_neg hne] at hmeet
            exact hne (ih x List.mem_cons_self y h.1 hmeet)
          rw [if_pos hyx] at hmeet
          rw [sameAll, Bool.and_eq_true]
          exact ⟨hyx, ihs (fun x hx => ih x (List.mem_cons_of_mem _ hx)) h.2 hmeet⟩

theorem same_symm {a b : Datum} (h : a.same b = true) (hmeet : (b.compare? a).isSome = true) :
    b.same a = true := by
  induction a using inductionOn generalizing b with
  | scalar a k ha =>
      rw [same_of_key ha] at h
      exact (same_of_key h.2 a).mpr ⟨h.1, ha⟩
  | list xs ih =>
      obtain ⟨ys, rfl, hys⟩ := exists_of_list_same h
      rw [compare?] at hmeet
      rw [same]
      exact sameAll_symm (fun x hx y hxy hyx => ih x hx hxy hyx) hys hmeet
  | map es ih =>
      obtain ⟨fs, rfl, -⟩ := exists_of_map_same h
      rw [not_compare?_map] at hmeet
      cases hmeet

/-! ## Comparison -/

/-- Two data can be compared with each other. -/
def Meet (a b : Datum) : Prop := (a.compare? b).isSome = true ∧ (b.compare? a).isSome = true

theorem Meet.symm {a b : Datum} (h : Meet a b) : Meet b a := ⟨h.2, h.1⟩

/-- Where sequences can be compared, their first items are equal in either direction or can be compared. -/
theorem meet_cons {x y : Datum} {xs ys : List Datum} (h : Meet (list (x :: xs)) (list (y :: ys))) :
    (x.same y = true ∧ y.same x = true ∧ Meet (list xs) (list ys)) ∨
      (x.same y = false ∧ y.same x = false ∧ Meet x y) := by
  obtain ⟨hxy, hyx⟩ := h
  rw [compare?, compareAll?] at hxy hyx
  by_cases hsame : x.same y = true
  · have hsame' : y.same x = true := by
      by_contra hne
      rw [if_neg hne] at hyx
      exact hne (same_symm hsame hyx)
    rw [if_pos hsame] at hxy
    rw [if_pos hsame'] at hyx
    refine .inl ⟨hsame, hsame', ?_, ?_⟩
    · rwa [compare?]
    · rwa [compare?]
  · have hsame' : y.same x ≠ true := by
      intro heq
      rw [if_neg hsame] at hxy
      exact hsame (same_symm heq hxy)
    rw [if_neg hsame] at hxy
    rw [if_neg hsame'] at hyx
    exact .inr ⟨Bool.eq_false_of_not_eq_true hsame, Bool.eq_false_of_not_eq_true hsame', hxy, hyx⟩

/-- What a scalar is compared with is a scalar. -/
theorem exists_key_of_compare? {a b : Datum} {k : Key} (ha : a.key? = some k)
    (h : (a.compare? b).isSome = true) : ∃ l, b.key? = some l ∧ a.compare? b = k.compare? l := by
  have hcompare := compare?_of_key ha b
  cases hb : b.key? with
  | none =>
      rw [hcompare, hb] at h
      cases h
  | some l => exact ⟨l, rfl, by rw [hcompare, hb, Option.bind_some]⟩

theorem swap_compareAll? {xs ys : List Datum}
    (ih : ∀ x ∈ xs, ∀ y, Meet x y → y.compare? x = (x.compare? y).map Ordering.swap)
    (h : Meet (list xs) (list ys)) : compareAll? ys xs = (compareAll? xs ys).map Ordering.swap := by
  induction xs generalizing ys with
  | nil => cases ys <;> rfl
  | cons x xs ihs =>
      cases ys with
      | nil => rfl
      | cons y ys =>
          rw [compareAll?, compareAll?]
          rcases meet_cons h with ⟨hxy, hyx, hrest⟩ | ⟨hxy, hyx, hmeet⟩
          · rw [if_pos hxy, if_pos hyx]
            exact ihs (fun x hx => ih x (List.mem_cons_of_mem _ hx)) hrest
          · rw [hxy, hyx, if_neg Bool.false_ne_true, if_neg Bool.false_ne_true]
            exact ih x List.mem_cons_self y hmeet

/-- The comparison turns around with its sides. -/
theorem swap_compare? {a b : Datum} (h : Meet a b) : b.compare? a = (a.compare? b).map Ordering.swap := by
  induction a using inductionOn generalizing b with
  | scalar a k ha =>
      obtain ⟨l, hb, hab⟩ := exists_key_of_compare? ha h.1
      obtain ⟨k', hk', hba⟩ := exists_key_of_compare? hb h.2
      obtain rfl : k = k' := Option.some.inj (ha.symm.trans hk')
      obtain ⟨hkl, hlk⟩ := h
      rw [hab] at hkl ⊢
      rw [hba] at hlk ⊢
      exact Key.swap_compare? hkl hlk
  | list xs ih =>
      obtain ⟨ys, rfl⟩ := exists_of_list_compare? h.1
      rw [compare?, compare?]
      exact swap_compareAll? (fun x hx y hxy => ih x hx hxy) h
  | map es ih =>
      have hmeet := h.1
      rw [not_compare?_map] at hmeet
      cases hmeet

theorem sameAll_of_compareAll? {xs ys : List Datum}
    (ih : ∀ x ∈ xs, ∀ y, x.compare? y = some .eq → x.same y = true) (h : compareAll? xs ys = some .eq) :
    sameAll xs ys = true := by
  induction xs generalizing ys with
  | nil => cases ys <;> first | rfl | cases h
  | cons x xs ihs =>
      cases ys with
      | nil => cases h
      | cons y ys =>
          rw [compareAll?] at h
          rw [sameAll, Bool.and_eq_true]
          split_ifs at h with hxy
          · exact ⟨hxy, ihs (fun x hx => ih x (List.mem_cons_of_mem _ hx)) h⟩
          · exact absurd (ih x List.mem_cons_self y h) hxy

/-- What stands neither above nor below is equal. -/
theorem same_of_compare? {a b : Datum} (h : a.compare? b = some .eq) : a.same b = true := by
  induction a using inductionOn generalizing b with
  | scalar a k ha =>
      rw [compare?_of_key ha, Option.bind_eq_some_iff] at h
      obtain ⟨l, hl, hkl⟩ := h
      obtain rfl := Key.eq_of_compare? hkl
      rw [same_of_key ha]
      refine ⟨?_, hl⟩
      rintro rfl
      cases hkl
  | list xs ih =>
      cases b with
      | list ys =>
          rw [compare?] at h
          rw [same]
          exact sameAll_of_compareAll? (fun x hx y hxy => ih x hx hxy) h
      | _ => cases h
  | map es ih =>
      rw [not_compare?_map] at h
      cases h

theorem compareAll?_congr {xs ys zs : List Datum}
    (ih : ∀ x ∈ xs, ∀ y z, x.same y = true → y.same x = true → Meet x z → Meet y z →
      x.compare? z = y.compare? z)
    (hxy : sameAll xs ys = true) (hyx : sameAll ys xs = true) (hxz : Meet (list xs) (list zs))
    (hyz : Meet (list ys) (list zs)) : compareAll? xs zs = compareAll? ys zs := by
  induction xs generalizing ys zs with
  | nil =>
      cases ys with
      | nil => rfl
      | cons y ys => cases hxy
  | cons x xs ihs =>
      cases ys with
      | nil => cases hxy
      | cons y ys =>
          cases zs with
          | nil => rfl
          | cons z zs =>
              rw [sameAll, Bool.and_eq_true] at hxy hyx
              rw [compareAll?, compareAll?]
              rcases meet_cons hxz with ⟨hsame, hsame', hrest⟩ | ⟨hsame, hsame', hmeet⟩
              · have hyz' := same_trans hyx.1 hsame
                rw [if_pos hsame, if_pos hyz']
                rcases meet_cons hyz with ⟨-, -, hrest'⟩ | ⟨hne, -⟩
                · exact ihs (fun x hx => ih x (List.mem_cons_of_mem _ hx)) hxy.2 hyx.2 hrest hrest'
                · rw [hne] at hyz'
                  cases hyz'
              · rcases meet_cons hyz with ⟨hyz', -⟩ | ⟨hne, -, hmeet'⟩
                · rw [same_trans hxy.1 hyz'] at hsame
                  cases hsame
                · rw [hsame, hne, if_neg Bool.false_ne_true, if_neg Bool.false_ne_true]
                  exact ih x List.mem_cons_self y z hxy.1 hyx.1 hmeet hmeet'

/-- Equal data compare in the same way. -/
theorem compare?_congr {a b c : Datum} (hab : a.same b = true) (hba : b.same a = true) (hac : Meet a c)
    (hbc : Meet b c) : a.compare? c = b.compare? c := by
  induction a using inductionOn generalizing b c with
  | scalar a k ha =>
      rw [same_of_key ha] at hab
      rw [compare?_of_key ha, compare?_of_key hab.2]
  | list xs ih =>
      obtain ⟨ys, rfl, hxy⟩ := exists_of_list_same hab
      obtain ⟨zs, rfl⟩ := exists_of_list_compare? hac.1
      rw [same] at hba
      rw [compare?, compare?]
      exact compareAll?_congr (fun x hx y z hxy hyx hxz hyz => ih x hx hxy hyx hxz hyz) hxy hba hac hbc
  | map es ih =>
      have hmeet := hac.1
      rw [not_compare?_map] at hmeet
      cases hmeet

theorem compare?_congr_right {a b c : Datum} (hbc : b.same c = true) (hcb : c.same b = true)
    (hab : Meet a b) (hac : Meet a c) : a.compare? b = a.compare? c := by
  rw [swap_compare? hab.symm, swap_compare? hac.symm, compare?_congr hbc hcb hab.symm hac.symm]

/-- A datum does not stand above another one. -/
def NoHigher (a b : Datum) : Prop := a.compare? b ≠ some .gt

theorem noHigher_or {a b : Datum} (h : Meet a b) : NoHigher a b ∨ NoHigher b a := by
  rw [NoHigher, NoHigher, swap_compare? h]
  rcases a.compare? b with _ | _ | _ | _ <;> simp

theorem same_of_noHigher {a b : Datum} (h : Meet a b) (hab : NoHigher a b) (hba : NoHigher b a) :
    a.same b = true := by
  obtain ⟨o, ho⟩ := Option.isSome_iff_exists.mp h.1
  rw [NoHigher, swap_compare? h] at hba
  rw [NoHigher] at hab
  rw [ho] at hab hba
  cases o with
  | eq => exact same_of_compare? ho
  | lt => exact absurd rfl hba
  | gt => exact absurd rfl hab

theorem noHigher_list {x y : Datum} {xs ys : List Datum} :
    NoHigher (list (x :: xs)) (list (y :: ys)) ↔
      if x.same y then NoHigher (list xs) (list ys) else NoHigher x y := by
  rw [NoHigher, compare?, compareAll?]
  split_ifs with hxy
  · rw [NoHigher, compare?]
  · rw [NoHigher]

theorem noHigher_trans_list {xs ys zs : List Datum}
    (ih : ∀ x ∈ xs, ∀ y z, Meet x y → Meet y z → Meet x z → NoHigher x y → NoHigher y z → NoHigher x z)
    (hxy : Meet (list xs) (list ys)) (hyz : Meet (list ys) (list zs)) (hxz : Meet (list xs) (list zs))
    (h : NoHigher (list xs) (list ys)) (h' : NoHigher (list ys) (list zs)) :
    NoHigher (list xs) (list zs) := by
  induction xs generalizing ys zs with
  | nil =>
      cases zs with
      | nil => exact fun heq => nomatch heq
      | cons z zs => exact fun heq => nomatch heq
  | cons x xs ihs =>
      cases ys with
      | nil => exact absurd rfl h
      | cons y ys =>
          cases zs with
          | nil => exact absurd rfl h'
          | cons z zs =>
              rw [noHigher_list] at h h' ⊢
              rcases meet_cons hxy with ⟨sxy, syx, rxy⟩ | ⟨nxy, nyx, mxy⟩ <;>
                rcases meet_cons hyz with ⟨syz, szy, ryz⟩ | ⟨nyz, nzy, myz⟩ <;>
                rcases meet_cons hxz with ⟨sxz, szx, rxz⟩ | ⟨nxz, nzx, mxz⟩
              · rw [if_pos sxy] at h
                rw [if_pos syz] at h'
                rw [if_pos sxz]
                exact ihs (fun x hx => ih x (List.mem_cons_of_mem _ hx)) rxy ryz rxz h h'
              · exact absurd (same_trans sxy syz) (ne_true_of_eq_false nxz)
              · exact absurd (same_trans syx sxz) (ne_true_of_eq_false nyz)
              · -- the first two are equal, so they stand to the third in the same way
                rw [nyz, if_neg Bool.false_ne_true] at h'
                rw [nxz, if_neg Bool.false_ne_true, NoHigher, compare?_congr sxy syx mxz myz]
                exact h'
              · exact absurd (same_trans sxz szy) (ne_true_of_eq_false nxy)
              · -- the last two are equal, so the first stands to them in the same way
                rw [nxy, if_neg Bool.false_ne_true] at h
                rw [nxz, if_neg Bool.false_ne_true, NoHigher, ← compare?_congr_right syz szy mxy mxz]
                exact h
              · -- the first and the last cannot be equal, since the second would be equal to them
                rw [nxy, if_neg Bool.false_ne_true, NoHigher, compare?_congr sxz szx mxy myz.symm] at h
                rw [nyz, if_neg Bool.false_ne_true] at h'
                exact absurd (same_of_noHigher myz h' h) (ne_true_of_eq_false nyz)
              · rw [nxy, if_neg Bool.false_ne_true] at h
                rw [nyz, if_neg Bool.false_ne_true] at h'
                rw [nxz, if_neg Bool.false_ne_true]
                exact ih x List.mem_cons_self y z mxy myz mxz h h'

/-- What stands no higher than something stands no higher than what is above it. -/
theorem noHigher_trans {a b c : Datum} (hab : Meet a b) (hbc : Meet b c) (hac : Meet a c)
    (h : NoHigher a b) (h' : NoHigher b c) : NoHigher a c := by
  induction a using inductionOn generalizing b c with
  | scalar a k ha =>
      obtain ⟨l, hb, hkl⟩ := exists_key_of_compare? ha hab.1
      obtain ⟨m, hc, hkm⟩ := exists_key_of_compare? ha hac.1
      obtain ⟨m', hm', hlm⟩ := exists_key_of_compare? hb hbc.1
      obtain rfl : m = m' := Option.some.inj (hc.symm.trans hm')
      rw [NoHigher, hkl] at h
      rw [NoHigher, hlm] at h'
      rw [NoHigher, hkm]
      exact Key.compare?_trans (hkl ▸ hab.1) (hlm ▸ hbc.1) (hkm ▸ hac.1) h h'
  | list xs ih =>
      obtain ⟨ys, rfl⟩ := exists_of_list_compare? hab.1
      obtain ⟨zs, rfl⟩ := exists_of_list_compare? hac.1
      exact noHigher_trans_list (fun x hx y z => ih x hx) hab hbc hac h h'
  | map es ih =>
      have hmeet := hac.1
      rw [not_compare?_map] at hmeet
      cases hmeet

end Datum

end RankingEval
