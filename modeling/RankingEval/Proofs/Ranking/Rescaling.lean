/-
# Scorings depend on the order of their scores only

Scores may be put on another scale. As long as equal scores stay equal and the order of the others is kept,
the sort moves every row to the same place and the same neighbours tie, so that the order of the
identifiers and the curve stay what they are. Where the new scale runs the other way, the direction of the
sort is turned around with it. Scores that are NaN take part in this: they come last in either direction,
and they tie with nothing.
-/

import Mathlib
import RankingEval.Proofs.Number.Packing
import RankingEval.Proofs.Ranking.Scorings

namespace RankingEval.Ranking

open RankingEval.Number RankingEval.Curve

/-! ## Scales -/

/-- On some scores a map keeps ties when it maps NaN, and nothing else among them, to NaN, and equal scores to
equal ones. -/
structure KeepsTies (f : Float → Float) (scores : List Float) : Prop where
  /-- NaN is mapped to NaN, and no other score is. -/
  isNaN_eq : ∀ x ∈ scores, (f x).isNaN = x.isNaN
  /-- Equal scores stay equal. -/
  beq_of_beq : ∀ x ∈ scores, ∀ y ∈ scores, (x == y) = true → (f x == f y) = true

/-- A map keeps the order of those among some scores that are not NaN. -/
def Increasing (f : Float → Float) (scores : List Float) : Prop :=
  ∀ x ∈ scores, ∀ y ∈ scores, x < y → f x < f y

/-- A map reverses the order of those among some scores that are not NaN. -/
def Decreasing (f : Float → Float) (scores : List Float) : Prop :=
  ∀ x ∈ scores, ∀ y ∈ scores, x < y → f y < f x

instance (f : Float → Float) (scores : List Float) : Decidable (Increasing f scores) :=
  inferInstanceAs (Decidable (∀ x ∈ scores, ∀ y ∈ scores, x < y → f x < f y))

instance (f : Float → Float) (scores : List Float) : Decidable (Decreasing f scores) :=
  inferInstanceAs (Decidable (∀ x ∈ scores, ∀ y ∈ scores, x < y → f y < f x))

/-- Some scores are compared on a new scale as they were on the old one, in the same direction if the new scale
runs `up`, and in the other one if it does not. -/
structure Rescales (up : Bool) (f : Float → Float) (scores : List Float) : Prop where
  /-- The same scores are NaN. -/
  isNaN_eq : ∀ x ∈ scores, (f x).isNaN = x.isNaN
  /-- The same scores are in order. -/
  inOrder_eq : ∀ x ∈ scores, ∀ y ∈ scores, x.isNaN = false → y.isNaN = false →
    inOrder up (f x) (f y) = inOrder true x y
  /-- The same scores are equal. -/
  beq_eq : ∀ x ∈ scores, ∀ y ∈ scores, (f x == f y) = (x == y)

/-- Doubles that are numbers are in order or equal. -/
theorem float_lt_trichotomy {x y : Float} (hx : x.isNaN = false) (hy : y.isNaN = false) :
    x < y ∨ (x == y) = true ∨ y < x := by
  simp only [float_lt_iff, float_beq_iff, hx, hy, true_and]
  exact lt_trichotomy (standing x) (standing y)

section Scales

variable {γ : Type} [LinearOrder γ] {rank : Float → γ} {f : Float → Float} {up : Bool} {scores : List Float}

/-- A map that keeps ties puts scores on another scale as soon as the ranks in the direction of that scale grow
with the scores. -/
theorem KeepsTies.rescales (ties : KeepsTies f scores) (hranks : Ranks up rank)
    (hlt : ∀ x ∈ scores, ∀ y ∈ scores, x < y → rank (f x) < rank (f y)) : Rescales up f scores where
  isNaN_eq := ties.isNaN_eq
  inOrder_eq x hx y hy hxnumber hynumber := by
    have hfx := (ties.isNaN_eq x hx).trans hxnumber
    have hfy := (ties.isNaN_eq y hy).trans hynumber
    rw [Bool.eq_iff_iff, hranks.inOrder_iff hfx hfy, ranks_standing.inOrder_iff hxnumber hynumber]
    rcases float_lt_trichotomy hxnumber hynumber with h | h | h
    · exact iff_of_true (hlt x hx y hy h).le (float_lt_iff.mp h).2.2.le
    · have hties := (hranks.beq_iff hfx hfy).mp (ties.beq_of_beq x hx y hy h)
      exact iff_of_true hties.le (float_beq_iff.mp h).2.2.le
    · exact iff_of_false (hlt y hy x hx h).not_ge (float_lt_iff.mp h).2.2.not_ge
  beq_eq x hx y hy := by
    by_cases h : x.isNaN = false ∧ y.isNaN = false
    · obtain ⟨hxnumber, hynumber⟩ := h
      have hfx := (ties.isNaN_eq x hx).trans hxnumber
      have hfy := (ties.isNaN_eq y hy).trans hynumber
      rw [Bool.eq_iff_iff]
      rcases float_lt_trichotomy hxnumber hynumber with h | h | h
      · rw [hranks.beq_iff hfx hfy, ranks_standing.beq_iff hxnumber hynumber]
        exact iff_of_false (hlt x hx y hy h).ne (float_lt_iff.mp h).2.2.ne
      · exact iff_of_true (ties.beq_of_beq x hx y hy h) h
      · rw [hranks.beq_iff hfx hfy, ranks_standing.beq_iff hxnumber hynumber]
        exact iff_of_false (hlt y hy x hx h).ne' (float_lt_iff.mp h).2.2.ne'
    · -- NaN is equal to nothing on either scale
      have hold : ¬(x == y) = true := fun heq => h ⟨(float_beq_iff.mp heq).1, (float_beq_iff.mp heq).2.1⟩
      have hnew : ¬(f x == f y) = true := by
        intro heq
        obtain ⟨hfx, hfy, -⟩ := float_beq_iff.mp heq
        exact h ⟨(ties.isNaN_eq x hx).symm.trans hfx, (ties.isNaN_eq y hy).symm.trans hfy⟩
      rw [Bool.eq_false_of_not_eq_true hold, Bool.eq_false_of_not_eq_true hnew]

theorem KeepsTies.rescales_of_increasing (ties : KeepsTies f scores) (hf : Increasing f scores) :
    Rescales true f scores := by
  apply ties.rescales ranks_standing
  intro x hx y hy hxy
  exact (float_lt_iff.mp (hf x hx y hy hxy)).2.2

theorem KeepsTies.rescales_of_decreasing (ties : KeepsTies f scores) (hf : Decreasing f scores) :
    Rescales false f scores := by
  apply ties.rescales ranks_reverse_standing
  intro x hx y hy hxy
  exact OrderDual.toDual_lt_toDual.mpr (float_lt_iff.mp (hf x hx y hy hxy)).2.2

/-- On a new scale the sort moves rows to the same places, in the direction that goes with the scale. -/
theorem Rescales.sortedByScore_map {β : Type} {rows : List (β × Float)}
    (h : Rescales up f (rows.map (·.2))) (ascending : Bool) :
    sortedByScore (ascending == up) (rows.map (Prod.map id f)) =
      (sortedByScore ascending rows).map (Prod.map id f) := by
  apply Ranking.sortedByScore_map
  · intro row hrow
    exact h.isNaN_eq _ (List.mem_map_of_mem hrow)
  · intro a ha b hb hanumber hbnumber
    have ha := List.mem_map_of_mem (f := (·.2)) ha
    have hb := List.mem_map_of_mem (f := (·.2)) hb
    cases ascending with
    | true => simpa using h.inOrder_eq _ ha _ hb hanumber hbnumber
    | false =>
        rw [Bool.false_beq, inOrder_not, h.inOrder_eq _ hb _ ha hbnumber hanumber]
        exact (inOrder_not true a.2 b.2).symm

end Scales

/-! ## Look-ups -/

section Lookup

variable {up : Bool} {f : Float → Float} {scores : List Float}

/-- The table with its scores on another scale. -/
def Scores.rescaled (f : Float → Float) (table : Scores) : Scores :=
  ⟨table.entries.map fun entry => (entry.1, entry.2.map f)⟩

/-- The item with its score on another scale. -/
def Item.rescaled (f : Float → Float) (item : Item) : Item := ⟨item.positive, item.score.map f⟩

theorem Scores.ofList_rescaled (pairs : List (Identity × Except Failure Float)) :
    Scores.ofList (pairs.map fun pair => (pair.1, pair.2.map f)) =
      (Scores.ofList pairs).map (Scores.rescaled f) := by
  induction pairs using List.reverseRecOn with
  | nil => rfl
  | append_singleton pairs pair ih =>
      obtain ⟨id, score⟩ := pair
      rw [List.map_append, List.map_singleton, Scores.ofList_append_singleton,
        Scores.ofList_append_singleton, ih]
      cases Scores.ofList pairs with
      | error failure => rfl
      | ok table => cases id <;> rfl

theorem Scores.get_rescaled (table : Scores) (id : Identity) :
    (table.rescaled f).get id = (table.get id).map f := by
  obtain ⟨entries⟩ := table
  cases id with
  | apart => rfl
  | keyless value => rfl
  | keyed k =>
      simp only [Scores.get, Scores.rescaled]
      induction entries with
      | nil => rfl
      | cons entry entries ih =>
          obtain ⟨l, score⟩ := entry
          rw [List.map_cons, List.lookup_cons, List.lookup_cons]
          cases k == l with
          | true => rfl
          | false => exact ih

theorem Item.of_rescaled (positives : Positives) (table : Scores) (id : Identity) :
    Item.of positives (some (table.rescaled f)) id =
      (Item.of positives (some table) id).map (Item.rescaled f) := by
  simp only [Item.of, Scores.get_rescaled]
  cases positives.holds id with
  | error failure => rfl
  | ok held => cases table.get id <;> rfl

/-- A table finds no other scores than those that it was given. -/
theorem Scores.mem_of_get {pairs : List (Identity × Except Failure Float)} {table : Scores}
    (htable : Scores.ofList pairs = .ok table) {id : Identity} {score : Float}
    (hscore : table.get id = .ok score) : .ok score ∈ pairs.map (·.2) := by
  have hentries : ∀ entry ∈ table.entries, entry.2 ∈ pairs.map (·.2) := by
    clear hscore
    induction pairs using List.reverseRecOn generalizing table with
    | nil =>
        cases htable
        exact List.forall_mem_nil _
    | append_singleton pairs pair ih =>
        obtain ⟨other, given⟩ := pair
        rw [Scores.ofList_append_singleton] at htable
        obtain ⟨before, hbefore, hlast⟩ := bind_eq_ok_iff.mp htable
        have hold : ∀ entry ∈ before.entries, entry.2 ∈ (pairs ++ [(other, given)]).map (·.2) := by
          intro entry hentry
          rw [List.map_append]
          exact List.mem_append_left _ (ih hbefore entry hentry)
        cases other with
        | keyless value => cases hlast
        | apart =>
            cases hlast
            exact hold
        | keyed k =>
            cases hlast
            exact List.forall_mem_cons.mpr ⟨by simp, hold⟩
  cases id with
  | apart => cases hscore
  | keyless value => cases hscore
  | keyed k =>
      rw [Scores.get] at hscore
      split at hscore
      next found hfound =>
        obtain ⟨front, back, hsplit, -⟩ := List.lookup_eq_some_iff.mp hfound
        subst hscore
        exact hentries (k, .ok score) (by simp [hsplit])
      next => cases hscore

/-- Items on another scale have the same raw points, since the same neighbours tie. -/
theorem Rescales.rawPoints_map {α : Type} [Coordinate α] (h : Rescales up f scores) (positives : ℕ)
    {items : List Item} (hitems : ∀ item ∈ items, ∀ score ∈ item.score, score ∈ scores) :
    (rawPoints positives (items.map (Item.rescaled f)) : List (Point α)) = rawPoints positives items := by
  have htied {a b : Item} (ha : a ∈ items) (hb : b ∈ items) :
      tied (a.score.map f) (b.score.map f) = tied a.score b.score := by
    have ha := hitems a ha
    have hb := hitems b hb
    cases hs : a.score with
    | none => rfl
    | some s =>
        cases ht : b.score with
        | none => rfl
        | some t => exact h.beq_eq s (ha s hs) t (hb t ht)
  have hends : blockEnds (items.map (Item.rescaled f)) = blockEnds items := by
    rw [blockEnds, blockEnds, List.length_map]
    congr 1
    funext t
    rw [endsBlock, endsBlock, List.getElem?_map, List.getElem?_map]
    cases hlast : items[t - 1]? with
    | none => rfl
    | some last =>
        cases hnext : items[t]? with
        | none => rfl
        | some next =>
            have hsame := htied (List.mem_of_getElem? hnext) (List.mem_of_getElem? hlast)
            exact congrArg (fun tie => decide (0 < t) && !tie) hsame
  have hwithin (t : ℕ) : positivesWithin (items.map (Item.rescaled f)) t = positivesWithin items t := by
    rw [positivesWithin, positivesWithin, ← List.map_take, List.countP_map]
    rfl
  exact rawPoints_congr (List.length_map _) hends fun t _ => hwithin t

/-- Items on another scale come to the same evaluation. -/
theorem Rescales.evaluate_map (h : Rescales up f scores) (expected : Datum) (positives : ℕ)
    {items : List Item} (hitems : ∀ item ∈ items, ∀ score ∈ item.score, score ∈ scores) :
    evaluate straightness expected positives (items.map (Item.rescaled f)) =
      evaluate straightness expected positives items := by
  have hcurve : curveOf straightness positives (items.map (Item.rescaled f)) =
      curveOf straightness positives items := by
    rw [curveOf_eq_blockCurve, curveOf_eq_blockCurve, blockCurve, blockCurve, h.rawPoints_map _ hitems]
  simp only [evaluate, hcurve, List.length_map, List.isEmpty_map]

/-- A table on another scale leads to the same evaluation. -/
theorem Rescales.evaluateIds_rescaled (h : Rescales up f scores) (expected : Datum) (positives : Positives)
    (ids : List Identity) {table : Scores} (htable : ∀ id score, table.get id = .ok score → score ∈ scores) :
    evaluateIds expected positives ids (some (table.rescaled f)) =
      evaluateIds expected positives ids (some table) := by
  simp only [evaluateIds, evaluateWithin, funext (Item.of_rescaled positives table), mapM_except_map]
  split_ifs with hcount
  · rfl
  · cases hlooked : ids.mapM (Item.of positives (some table)) with
    | error failure => rfl
    | ok items =>
        have hitems : ∀ item ∈ items, ∀ score ∈ item.score, score ∈ scores := by
          intro item hitem
          obtain ⟨id, -, hread⟩ := exists_of_mem_mapM hlooked hitem
          obtain ⟨-, score, hscore, hscored⟩ := Item.of_eq_ok_iff.mp hread
          rw [hscored]
          rintro _ ⟨⟩
          exact htable id score hscore
        exact h.evaluate_map expected positives.count hitems

end Lookup

/-! ## Scorings -/

/-- The scores of a scoring, row by row. -/
def Scoring.scores (s : Scoring) : List Float := s.rows.map (·.2)

/-- A scoring on another scale derives the same order of identifiers. -/
theorem Rescales.ids_eq {up : Bool} {f : Float → Float} {s other : Scoring} (h : Rescales up f s.scores)
    (hrows : other.rows = s.rows.map (Prod.map id f)) (hascending : other.ascending = (s.ascending == up)) :
    other.order.ids = s.order.ids := by
  rw [Scoring.order, Scoring.order, hrows, hascending, Rescales.sortedByScore_map h, List.map_map]
  rfl

/-- A scoring on another scale has the same curve, or fails in the same way. -/
theorem Rescales.curve_eq {up : Bool} {f : Float → Float} {s other : Scoring} (h : Rescales up f s.scores)
    (hrows : other.rows = s.rows.map (Prod.map id f)) (hascending : other.ascending = (s.ascending == up))
    (positives : Positives) :
    Ranking.curve positives (.scoring other) = Ranking.curve positives (.scoring s) := by
  have htable : other.table = s.table.map (Scores.rescaled f) := by
    rw [Scoring.table, Scoring.table, ← Scores.ofList_rescaled, hrows, List.map_map, List.map_map]
    rfl
  rw [Ranking.curve, Ranking.curve, htable, h.ids_eq hrows hascending, hrows, List.length_map]
  cases hfound : s.table with
  | error failure => rfl
  | ok table =>
      apply h.evaluateIds_rescaled
      intro id score hscore
      have hmem := Scores.mem_of_get hfound hscore
      rw [List.map_map, List.mem_map] at hmem
      obtain ⟨row, hrow, heq⟩ := hmem
      obtain rfl : row.2 = score := Except.ok.inj heq
      exact List.mem_map_of_mem hrow

/-- The order that a scoring derives is that of its rows sorted by score. -/
theorem Scoring.exists_sorted (s : Scoring) :
    ∃ sorted : List (Identifier × Float),
      s.order.ids = sorted.map (·.1) ∧ sorted.Perm s.rows ∧
      (sorted.Pairwise fun a b =>
        b.2.isNaN = false → a.2.isNaN = false ∧ inOrder s.ascending a.2 b.2 = true) ∧
      (∀ x : Float, sorted.filter (·.2 == x) = s.rows.filter (·.2 == x)) ∧
      sorted.filter (·.2.isNaN) = s.rows.filter (·.2.isNaN) := by
  refine ⟨sortedByScore s.ascending s.rows, rfl, sortedByScore_perm _ _, ?_, ?_,
    filter_isNaN_sortedByScore _ _⟩
  · cases s.ascending with
    | false => exact inOrder_sortedByScore ranks_reverse_standing s.rows
    | true => exact inOrder_sortedByScore ranks_standing s.rows
  · cases s.ascending with
    | false => exact filter_beq_sortedByScore ranks_reverse_standing s.rows
    | true => exact filter_beq_sortedByScore ranks_standing s.rows

/-- Of a scoring nothing but the order of its scores matters. Put the scores on another scale by a map that
keeps ties among them: when it is increasing on them and the direction stays, or when it is decreasing on them
and the direction is turned around, the scoring derives the same order of identifiers, and every evaluation of
it has the same outcome, which is a curve whenever identifiers differ, there are rows and there are positives.
What the map does to other doubles does not matter. The order itself lists the rows by score in the direction
given, and those without a score last; rows of equal score, and rows without one, stay in the order in which
they were given. -/
theorem curve_eq_of_rescaled {f : Float → Float} {s other : Scoring} (ties : KeepsTies f s.scores)
    (hrows : other.rows = s.rows.map (Prod.map id f))
    (hscale : Increasing f s.scores ∧ other.ascending = s.ascending ∨
      Decreasing f s.scores ∧ other.ascending = !s.ascending) :
    other.order.ids = s.order.ids ∧
      (∀ positives : Positives,
        Ranking.curve positives (.scoring other) = Ranking.curve positives (.scoring s) ∧
        (s.Identified → s.rows ≠ [] → positives.count ≠ 0 →
          ∃ curve journal, Ranking.curve positives (.scoring s) = .ok (curve, journal))) ∧
      ∃ sorted : List (Identifier × Float),
        s.order.ids = sorted.map (·.1) ∧ sorted.Perm s.rows ∧
        (sorted.Pairwise fun a b =>
          b.2.isNaN = false → a.2.isNaN = false ∧ inOrder s.ascending a.2 b.2 = true) ∧
        (∀ x : Float, sorted.filter (·.2 == x) = s.rows.filter (·.2 == x)) ∧
        sorted.filter (·.2.isNaN) = s.rows.filter (·.2.isNaN) := by
  obtain ⟨up, hup, hascending⟩ : ∃ up, Rescales up f s.scores ∧ other.ascending = (s.ascending == up) := by
    rcases hscale with ⟨hf, hsame⟩ | ⟨hf, hturned⟩
    · exact ⟨true, ties.rescales_of_increasing hf, by simpa using hsame⟩
    · exact ⟨false, ties.rescales_of_decreasing hf, by simpa using hturned⟩
  refine ⟨hup.ids_eq hrows hascending, ?_, s.exists_sorted⟩
  intro positives
  refine ⟨hup.curve_eq hrows hascending positives, ?_⟩
  intro identified hnonempty hpositives
  rw [identified.curve_eq, if_neg hpositives, if_neg hnonempty]
  exact ⟨_, _, rfl⟩

/-- Scores that are doubled and lowered are sorted in the same direction, and negated ones in the other
direction, with a tie and a row without a score. -/
theorem curve_eq_of_rescaled_both_ways :
    let a : Identifier := ⟨.text "a", .keyed (.text "a")⟩
    let b : Identifier := ⟨.text "b", .keyed (.text "b")⟩
    let c : Identifier := ⟨.text "c", .keyed (.text "c")⟩
    let d : Identifier := ⟨.text "d", .keyed (.text "d")⟩
    let given : Scoring := ⟨0, "given", [(a, 1), (b, notANumber), (c, 3), (d, 1)], false⟩
    let doubled : Scoring :=
      ⟨1, "doubled", given.rows.map (Prod.map id fun x => 2 * x - 7), false⟩
    let negated : Scoring := ⟨2, "negated", given.rows.map (Prod.map id fun x => -x), true⟩
    doubled.order.ids = given.order.ids ∧ negated.order.ids = given.order.ids ∧
      ∃ curve journal,
        Ranking.curve (.set [.text "a"] 0) (.scoring given) = .ok (curve, journal) ∧
        Ranking.curve (.set [.text "a"] 0) (.scoring doubled) = .ok (curve, journal) ∧
        Ranking.curve (.set [.text "a"] 0) (.scoring negated) = .ok (curve, journal) := by
  intro a b c d given doubled negated
  have hdoubled : KeepsTies (fun x => 2 * x - 7) given.scores := ⟨by decide +kernel, by decide +kernel⟩
  have hnegated : KeepsTies (fun x => -x) given.scores :=
    ⟨fun x _ => float_isNaN_neg x, fun x _ y _ h => by rw [float_neg_beq_neg, BEq.comm]; exact h⟩
  have hdecreasing : Decreasing (fun x => -x) given.scores :=
    fun x _ y _ h => (float_neg_lt_neg_iff y x).mpr h
  obtain ⟨hidsDoubled, hcurveDoubled, -⟩ :=
    @curve_eq_of_rescaled _ given doubled hdoubled rfl (Or.inl ⟨by decide +kernel, rfl⟩)
  obtain ⟨hidsNegated, hcurveNegated, -⟩ :=
    @curve_eq_of_rescaled _ given negated hnegated rfl (Or.inr ⟨hdecreasing, rfl⟩)
  obtain ⟨hsameDoubled, hbuilt⟩ := hcurveDoubled (.set [.text "a"] 0)
  obtain ⟨hsameNegated, -⟩ := hcurveNegated (.set [.text "a"] 0)
  have identified : given.Identified := by
    constructor
    · intro row hrow
      simp only [given, List.mem_cons, List.not_mem_nil, or_false] at hrow
      rcases hrow with rfl | rfl | rfl | rfl <;> exact ⟨_, rfl⟩
    · decide
  obtain ⟨curve, journal, hgiven⟩ := hbuilt identified (by simp [given]) (by decide)
  exact ⟨hidsDoubled, hidsNegated, curve, journal, hgiven, hsameDoubled.trans hgiven,
    hsameNegated.trans hgiven⟩

end RankingEval.Ranking
