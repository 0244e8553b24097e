/-
# Which rankings are evaluated

The agenda is drawn up in two passes that remember the handles they have met. It holds every scoring where
it first appears, and behind the scorings every order where it first appears, except the orders that a
scoring of the list derives. No ranking stands on it twice, in whatever way it was listed more than once.
-/

import Mathlib.Data.List.Nodup
import RankingEval.Evaluation.Basic

namespace RankingEval

/-! ## What is due -/

/-- The ranking has scores. -/
def Ranking.isScoring : Ranking → Bool
  | .scoring _ => true
  | .order _ => false

/-- The ranking is an order that some scoring of a list derives. -/
def Ranking.isDerivedIn (rankings : List Ranking) (r : Ranking) : Bool :=
  rankings.any fun
    | .scoring s => s.order.handle == r.handle
    | .order _ => false

/-- Rankings are told apart when no two of them share a handle. -/
def ToldApart (rankings : List Ranking) : Prop :=
  ∀ r ∈ rankings, ∀ other ∈ rankings, r.handle = other.handle → r = other

/-- Every ranking of a list once, where it first appears. -/
def firstAppearances (rankings : List Ranking) : List Ranking :=
  rankings.eraseDupsBy fun r earlier => r.handle == earlier.handle

/-- The rankings of a list that are due for evaluation: its scorings, and then the orders that none of them
derives. -/
def due (rankings : List Ranking) : List Ranking :=
  firstAppearances (rankings.filter (·.isScoring)) ++
    firstAppearances (rankings.filter fun r => !r.isScoring && !r.isDerivedIn rankings)

theorem firstAppearances_of_nodup {rankings : List Ranking} (h : (rankings.map Ranking.handle).Nodup) :
    firstAppearances rankings = rankings := by
  induction rankings with
  | nil => rfl
  | cons r rest ih =>
      rw [List.map_cons, List.nodup_cons] at h
      have hlater : (rest.filter fun later => (later.handle == r.handle) = false) = rest := by
        apply List.filter_eq_self.mpr
        intro later hlater
        have hne : later.handle ≠ r.handle := fun hsame => h.1 (hsame ▸ List.mem_map_of_mem hlater)
        simpa using hne
      rw [firstAppearances] at ih ⊢
      rw [List.eraseDupsBy_cons, hlater, ih h.2]

namespace Evaluation

/-! ## The passes -/

/-- A pass keeps the first appearances among the rankings whose handles were not met before. -/
theorem unseen_eq (seen : List Ranking.Handle) (rankings : List Ranking) :
    unseen seen rankings = firstAppearances (rankings.filter fun r => !seen.contains r.handle) := by
  induction rankings generalizing seen with
  | nil => rfl
  | cons r rest ih =>
      by_cases h : seen.contains r.handle = true
      · rw [unseen, if_pos h, List.filter_cons_of_neg (by rw [h]; decide), ih]
      · have hlater : (rest.filter fun later => !(r.handle :: seen).contains later.handle) =
            (rest.filter fun later => !seen.contains later.handle).filter
              fun later => (later.handle == r.handle) = false := by
          rw [List.filter_filter]
          apply List.filter_congr
          intro later _
          rw [List.contains_cons]
          cases later.handle == r.handle <;> simp
        rw [unseen, if_neg h, List.filter_cons_of_pos (by simpa using h), firstAppearances,
          List.eraseDupsBy_cons, ih, hlater, firstAppearances]

theorem unseen_sublist (seen : List Ranking.Handle) (rankings : List Ranking) :
    (unseen seen rankings).Sublist rankings := by
  induction rankings generalizing seen with
  | nil => exact .slnil
  | cons r rest ih =>
      rw [unseen]
      split_ifs with h
      · exact (ih seen).cons r
      · exact (ih _).cons_cons r

/-- A pass takes no ranking whose handle was met. -/
theorem not_mem_of_mem_unseen {seen : List Ranking.Handle} {rankings : List Ranking} :
    ∀ r ∈ unseen seen rankings, r.handle ∉ seen := by
  induction rankings generalizing seen with
  | nil => simp [unseen]
  | cons r rest ih =>
      rw [unseen]
      split_ifs with h
      · exact ih
      · intro taken htaken
        rcases List.mem_cons.mp htaken with rfl | htaken
        · simpa using h
        · exact fun hseen => ih taken htaken (List.mem_cons_of_mem _ hseen)

/-- A pass takes no ranking twice. -/
theorem nodup_unseen (seen : List Ranking.Handle) (rankings : List Ranking) :
    ((unseen seen rankings).map Ranking.handle).Nodup := by
  induction rankings generalizing seen with
  | nil => simp [unseen]
  | cons r rest ih =>
      rw [unseen]
      split_ifs with h
      · exact ih seen
      · rw [List.map_cons, List.nodup_cons]
        refine ⟨?_, ih _⟩
        rw [List.mem_map]
        rintro ⟨taken, htaken, hsame⟩
        exact not_mem_of_mem_unseen taken htaken (hsame ▸ List.mem_cons_self)

/-! ## The agenda -/

theorem map_scoring_scorings (rankings : List Ranking) :
    (scorings rankings).map .scoring = rankings.filter (·.isScoring) := by
  induction rankings with
  | nil => rfl
  | cons r rest ih =>
      cases r with
      | scoring s => exact congrArg (Ranking.scoring s :: ·) ih
      | order o => exact ih

theorem map_order_orders (rankings : List Ranking) :
    (orders rankings).map .order = rankings.filter fun r => !r.isScoring := by
  induction rankings with
  | nil => rfl
  | cons r rest ih =>
      cases r with
      | scoring s => exact ih
      | order o => exact congrArg (Ranking.order o :: ·) ih

theorem contains_map_scorings (rankings : List Ranking) (r : Ranking) :
    ((scorings rankings).map (·.order.handle)).contains r.handle = r.isDerivedIn rankings := by
  induction rankings with
  | nil => rfl
  | cons first rest ih =>
      rw [Ranking.isDerivedIn, List.any_cons]
      cases first with
      | scoring s =>
          rw [← Ranking.isDerivedIn, ← ih]
          change (s.order.handle :: (scorings rest).map (·.order.handle)).contains r.handle = _
          rw [List.contains_cons, Bool.beq_comm]
      | order o =>
          rw [Bool.false_or, ← Ranking.isDerivedIn, ← ih]
          rfl

/-- The agenda holds what is due. -/
theorem agenda_eq_due (rankings : List Ranking) : agenda rankings = due rankings := by
  rw [agenda, unseen_eq, unseen_eq, map_scoring_scorings, map_order_orders, due]
  congr 2
  · exact List.filter_eq_self.mpr fun _ _ => rfl
  · rw [List.filter_filter]
    apply List.filter_congr
    intro r _
    rw [contains_map_scorings, Bool.and_comm]

/-- Different scorings, followed by different orders that were made on their own, are the agenda as they
are. -/
theorem agenda_append {scored ordered : List Ranking} (hscored : ∀ r ∈ scored, r.isScoring = true)
    (hordered : ∀ r ∈ ordered, r.isScoring = false)
    (hmade : ∀ r ∈ ordered, ∀ number, r.handle ≠ .derived number)
    (different : ((scored ++ ordered).map Ranking.handle).Nodup) :
    agenda (scored ++ ordered) = scored ++ ordered := by
  have hfirst : (scored ++ ordered).filter (·.isScoring) = scored := by
    rw [List.filter_append, List.filter_eq_self.mpr hscored, List.filter_eq_nil_iff.mpr, List.append_nil]
    intro r hr
    simp [hordered r hr]
  have hrest : ((scored ++ ordered).filter fun r => !r.isScoring && !r.isDerivedIn (scored ++ ordered)) =
      ordered := by
    rw [List.filter_append, List.filter_eq_nil_iff.mpr, List.nil_append, List.filter_eq_self.mpr]
    · intro r hr
      have hderived : r.isDerivedIn (scored ++ ordered) = false := by
        rw [Ranking.isDerivedIn, List.any_eq_false]
        intro other _
        cases other with
        | scoring s => exact fun hsame => hmade r hr s.number (beq_iff_eq.mp hsame).symm
        | order o => exact Bool.false_ne_true
      rw [hordered r hr, hderived]
      rfl
    · intro r hr
      simp [hscored r hr]
  rw [List.map_append, List.nodup_append] at different
  rw [agenda_eq_due, due, hfirst, hrest, firstAppearances_of_nodup different.1,
    firstAppearances_of_nodup different.2.1]

theorem mem_of_mem_agenda {rankings : List Ranking} {r : Ranking} (h : r ∈ agenda rankings) :
    r ∈ rankings := by
  rw [agenda, List.mem_append] at h
  rcases h with h | h
  · have hscored := (unseen_sublist _ _).subset h
    rw [map_scoring_scorings] at hscored
    exact List.mem_of_mem_filter hscored
  · have hordered := (unseen_sublist _ _).subset h
    rw [map_order_orders] at hordered
    exact List.mem_of_mem_filter hordered

/-- No ranking stands on the agenda twice. -/
theorem nodup_agenda {rankings : List Ranking} (apart : ToldApart rankings) :
    ((agenda rankings).map Ranking.handle).Nodup := by
  rw [agenda, List.map_append, List.nodup_append]
  refine ⟨nodup_unseen _ _, nodup_unseen _ _, ?_⟩
  intro handle hscored other hordered heq
  obtain ⟨s, hs, rfl⟩ := List.mem_map.mp hscored
  obtain ⟨o, ho, rfl⟩ := List.mem_map.mp hordered
  have hs' := (unseen_sublist _ _).subset hs
  have ho' := (unseen_sublist _ _).subset ho
  rw [map_scoring_scorings, List.mem_filter] at hs'
  rw [map_order_orders, List.mem_filter] at ho'
  -- a scoring and an order that share a handle would be one ranking
  have hone := apart s hs'.1 o ho'.1 heq
  rw [← hone, hs'.2] at ho'
  exact Bool.false_ne_true ho'.2

end Evaluation

end RankingEval
