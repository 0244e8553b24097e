/-
# Every ranking is evaluated once

An evaluation goes through its agenda and records a curve for each ranking on it, until one of them has
none. Since no ranking stands on the agenda twice, the store before the evaluation decides of each ranking
whether its result is replaced, and the rankings that were recorded before a failure stay recorded.
-/

import Mathlib
import RankingEval.Proofs.Evaluation.Agenda
import RankingEval.Proofs.Evaluation.Steps
import RankingEval.Proofs.Ranking.Plot
import RankingEval.Proofs.Store
import RankingEval.Proofs.Table.MatchedSets

namespace RankingEval.Evaluation

open RankingEval.Number RankingEval.Ranking

/-! ## What is recorded -/

/-- The curve that is kept for a ranking: its plot, which remembers the area once that has been read. -/
def keptCurve (positives : Positives) (r : Ranking) : RecallCurve Float :=
  (r.plot positives).readArea.curve

/-- What the journal tells about a ranking, by the store before its evaluation. -/
def chapter (positives : Positives) (store : Store ℕ) (r : Ranking) : Journal :=
  builtEntry (r.plot positives).curve.size r.identities.length :: store.addReport r ++
    [RecallCurve.areaEntry (r.plot positives).curve.size, areaLine r (r.plotArea positives)]

/-- The state in which the evaluation of a ranking ends. -/
def recorded (positives : Positives) (s : State) (r : Ranking) : State where
  shelf := s.shelf.push (keptCurve positives r)
  store := s.store.add r s.shelf.size
  journal := s.journal ++ chapter positives s.store r

/-- Rankings were recorded, each of them once. -/
structure Recorded (positives : Positives) (done : List Ranking) (before after : State) : Prop where
  /-- Their curves stand behind those that were on the shelf. -/
  shelf : after.shelf = before.shelf ++ (done.map (keptCurve positives)).toArray
  /-- The store gives each of them the place of its curve: those that had a result keep their position, and
  the others follow behind all that were in the store. -/
  entries : after.store.entries =
    before.store.entries.map (Store.renewed (done.zipIdx before.shelf.size)) ++
      (done.zipIdx before.shelf.size).filter fun entry => !before.store.contains entry.1
  /-- The journal goes on with one chapter for each of them. -/
  journal : after.journal = before.journal ++ done.flatMap (chapter positives before.store)
  /-- The only warnings say which results were replaced. -/
  warnings : after.journal.filter (·.level = .warning) =
    before.journal.filter (·.level = .warning) ++
      (done.filter fun r => before.store.contains r).map Store.replacingEntry

/-! ## Steps and runs -/

variable {keys : List Key} {apart : ℕ}

/-- An identified ranking that holds something is recorded. -/
theorem run_evaluateRanking {r : Ranking} (identified : r.Identified) (hids : r.identities ≠ [])
    (hpositives : (Positives.set keys apart).count ≠ 0) (s : State) :
    (evaluateRanking (.set keys apart) r).run.run s = (.ok (), recorded (.set keys apart) s r) := by
  have hcurve := identified.curve_eq (.set keys apart)
  rw [if_neg hpositives, if_neg hids] at hcurve
  obtain ⟨kept, hread⟩ := identified.readArea_plot hids hpositives
  have harea : (r.plot (.set keys apart)).readArea.value = .ok (r.plotArea (.set keys apart)) := by
    rw [hread]
  rw [run_evaluateRanking_of_ok s hcurve harea, recorded, keptCurve, chapter, hread]
  simp only [List.append_assoc, List.cons_append, List.nil_append]

/-- An evaluation goes through rankings that can be recorded. -/
theorem run_forM_append {done : List Ranking}
    (hdone : ∀ r ∈ done, r.Identified ∧ r.identities ≠ [])
    (hpositives : (Positives.set keys apart).count ≠ 0) (rest : List Ranking) (s : State) :
    ((done ++ rest).forM (evaluateRanking (.set keys apart))).run.run s =
      (rest.forM (evaluateRanking (.set keys apart))).run.run
        (done.foldl (recorded (.set keys apart)) s) := by
  induction done generalizing s with
  | nil => rfl
  | cons r done ih =>
      obtain ⟨identified, hids⟩ := hdone r List.mem_cons_self
      rw [List.cons_append, List.forM,
        run_bind_of_ok (run_evaluateRanking identified hids hpositives s),
        ih fun d hd => hdone d (List.mem_cons_of_mem r hd)]
      rfl

/-- An evaluation stops at a ranking that holds nothing. -/
theorem run_forM_of_empty {done : List Ranking}
    (hdone : ∀ d ∈ done, d.Identified ∧ d.identities ≠ [])
    (hpositives : (Positives.set keys apart).count ≠ 0) {r : Ranking} (identified : r.Identified)
    (hids : r.identities = []) (rest : List Ranking) (s : State) :
    ((done ++ r :: rest).forM (evaluateRanking (.set keys apart))).run.run s =
      (.error (.emptyRanking (Positives.set keys apart).count),
        done.foldl (recorded (.set keys apart)) s) := by
  have hcurve := identified.curve_eq (.set keys apart)
  rw [if_neg hpositives, if_pos hids] at hcurve
  rw [run_forM_append hdone hpositives, List.forM]
  exact run_bind_of_error (run_evaluateRanking_of_error _ hcurve)

theorem shelf_foldl_recorded (positives : Positives) (done : List Ranking) (s : State) :
    (done.foldl (recorded positives) s).shelf =
      s.shelf ++ (done.map (keptCurve positives)).toArray := by
  induction done generalizing s with
  | nil => simp
  | cons r done ih =>
      rw [List.foldl_cons, ih, recorded]
      simp

theorem store_foldl_recorded (positives : Positives) (done : List Ranking) (s : State) :
    (done.foldl (recorded positives) s).store = s.store.addAll (done.zipIdx s.shelf.size) := by
  induction done generalizing s with
  | nil => rfl
  | cons r done ih =>
      rw [List.foldl_cons, ih, recorded, Array.size_push, List.zipIdx_cons]
      rfl

/-- Rankings with different handles are told about by the store before the first of them. -/
theorem journal_foldl_recorded (positives : Positives) {done : List Ranking}
    (different : (done.map handle).Nodup) (s : State) :
    (done.foldl (recorded positives) s).journal =
      s.journal ++ done.flatMap (chapter positives s.store) := by
  induction done generalizing s with
  | nil => simp
  | cons r done ih =>
      rw [List.map_cons, List.nodup_cons] at different
      -- the first ranking is in the store now, but no later one has its handle
      have hlater : ∀ other ∈ done, chapter positives (recorded positives s r).store other =
          chapter positives s.store other := by
        intro other hother
        rw [chapter, chapter, recorded, Store.addReport_add]
        exact fun heq => different.1 (heq ▸ List.mem_map_of_mem hother)
      rw [List.foldl_cons, ih different.2, List.flatMap_congr hlater, recorded, List.append_assoc,
        List.flatMap_cons]

theorem warnings_chapter (positives : Positives) (store : Store ℕ) (r : Ranking) :
    (chapter positives store r).filter (·.level = .warning) = store.addReport r := by
  rw [chapter, Store.addReport]
  split <;> rfl

/-- Recording rankings with different handles one after the other records each of them once. -/
theorem recorded_foldl (positives : Positives) {done : List Ranking}
    (different : (done.map handle).Nodup) (s : State) :
    Recorded positives done s (done.foldl (recorded positives) s) where
  shelf := shelf_foldl_recorded positives done s
  entries := by
    rw [store_foldl_recorded]
    apply Store.entries_addAll
    have hhandles : (done.zipIdx s.shelf.size).map (·.1.handle) = done.map handle := by
      calc (done.zipIdx s.shelf.size).map (·.1.handle) =
          ((done.zipIdx s.shelf.size).map Prod.fst).map handle := by
            rw [List.map_map]
            rfl
        _ = done.map handle := by rw [List.zipIdx_map_fst]
    rw [hhandles]
    exact different
  journal := journal_foldl_recorded positives different s
  warnings := by
    rw [journal_foldl_recorded positives different, List.filter_append, List.filter_flatMap,
      ← Store.flatMap_addReport]
    simp only [warnings_chapter]

/-! ## The evaluation of a list -/

/-- An evaluation records every ranking that is due once. The scorings come first, then the orders that no
scoring of the list derives, whatever was listed repeatedly and wherever it stands. If all of them hold
something, all of them are recorded; otherwise the first one that holds nothing ends the evaluation, and
those before it stay recorded. Where the positives cannot be chosen, nothing is evaluated at all: that is so
as soon as a label matches whose identifier has no key, and then everything is left as it was. -/
theorem evaluate_each_once {rankings : List Ranking} (apart : ToldApart rankings)
    (identified : ∀ r ∈ rankings, r.Identified) (positiveClass : String) (labels : Labels) (before : State) :
    ((due rankings).map handle).Nodup ∧
      (∀ failure, labels.matchingPattern {} (.text positiveClass) = .error failure →
        (evaluate positiveClass labels rankings).run.run before = (.error failure, before)) ∧
      (∀ compiled, Pattern.compile {} positiveClass = .ok compiled →
        (∃ l ∈ labels, l.passes compiled.occursIn = true ∧ l.id.identity.isKeyless = true) →
          (evaluate positiveClass labels rankings).run.run before = (.error .mistyped, before)) ∧
      ∀ matched, labels.matchingPattern {} (.text positiveClass) = .ok matched → matched ≠ [] →
        ∃ positives, Positives.ofIdentities (matched.map (·.identity)) = .ok positives ∧
          ((∀ r ∈ due rankings, r.identities ≠ []) → ∃ after,
            (evaluate positiveClass labels rankings).run.run before = (.ok (), after) ∧
              Recorded positives (due rankings) before after) ∧
          ∀ done r rest, due rankings = done ++ r :: rest → (∀ d ∈ done, d.identities ≠ []) →
            r.identities = [] → ∃ after,
              (evaluate positiveClass labels rankings).run.run before =
                  (.error (.emptyRanking positives.count), after) ∧
                Recorded positives done before after := by
  have hdue : ∀ r ∈ due rankings, r.Identified := by
    intro r hr
    rw [← agenda_eq_due] at hr
    exact identified r (mem_of_mem_agenda hr)
  have different := nodup_agenda apart
  -- from here on the agenda is read as what is due
  rw [agenda_eq_due] at different
  refine ⟨different, fun failure hfailure => run_evaluate_of_matching_error before hfailure rankings, ?_, ?_⟩
  · intro compiled hcompile hkeyless
    have hfails := Labels.matching_eq_error_iff.mpr ⟨rfl, .inr hkeyless⟩
    rw [← Labels.matchingPattern_of_compile hcompile] at hfails
    exact run_evaluate_of_matching_error before hfails rankings
  · intro matched hmatched hsome
    obtain ⟨keys, count, hset, hcount⟩ :=
      Positives.ofIdentities_eq_set (Labels.isKeyless_of_matchingPattern hmatched)
    have hpositives := hcount (by simpa using hsome)
    have hrun := run_evaluate before hmatched hsome hset rankings
    rw [agenda_eq_due] at hrun
    refine ⟨_, hset, ?_, ?_⟩
    · intro hall
      have hdone := run_forM_append (fun r hr => ⟨hdue r hr, hall r hr⟩) hpositives [] before
      rw [List.append_nil] at hdone
      exact ⟨_, hrun.trans hdone, recorded_foldl _ different before⟩
    · intro done r rest hsplit hfilled hnothing
      have hstop := run_forM_of_empty
        (fun d hd => ⟨hdue d (by simp [hsplit, hd]), hfilled d hd⟩) hpositives
        (hdue r (by simp [hsplit])) hnothing rest before
      rw [hsplit] at hrun
      rw [hsplit, List.map_append] at different
      exact ⟨_, hrun.trans hstop, recorded_foldl _ (List.nodup_append.mp different).1 before⟩

/-- An order is listed twice and was evaluated before; another one stands around the scoring that derives
it. -/
theorem evaluate_each_once_listed_again :
    let a : Identifier := ⟨.text "a", .keyed (.text "a")⟩
    let b : Identifier := ⟨.text "b", .keyed (.text "b")⟩
    let s : Scoring := ⟨0, "scores", [(a, 1), (b, 2)], false⟩
    let o : Order := ⟨.made 1, "by hand", [b, a]⟩
    let before : State := { shelf := #[.ofSize 0], store := ⟨[(.order o, 0)]⟩ }
    ∃ after,
      (evaluate "o" [⟨a, some "out"⟩, ⟨b, some "in"⟩]
        [.order s.order, .order o, .scoring s, .order s.order, .order o]).run.run before =
          (.ok (), after) ∧
        Recorded (.set [.text "a"] 0) [.scoring s, .order o] before after ∧
        after.store.entries = [(.order o, 2), (.scoring s, 1)] := by
  intro a b s o before
  have hs : (Ranking.scoring s).Identified := by
    constructor
    · intro id hid
      simp only [identities, s, List.map_cons, List.map_nil, List.mem_cons, List.not_mem_nil,
        or_false] at hid
      rcases hid with rfl | rfl <;> exact ⟨_, rfl⟩
    · decide
  have ho : (Ranking.order o).Identified := hs.of_perm (List.Perm.swap _ _ _)
  have hderived : (Ranking.order s.order).Identified := hs.of_perm (identities_order s).symm
  have apart : ToldApart [.order s.order, .order o, .scoring s, .order s.order, .order o] := by
    intro r hr other hother hsame
    simp only [List.mem_cons, List.not_mem_nil, or_false] at hr hother
    rcases hr with rfl | rfl | rfl | rfl | rfl <;> rcases hother with rfl | rfl | rfl | rfl | rfl <;>
      first | rfl | cases hsame
  have identified : ∀ r ∈ [Ranking.order s.order, .order o, .scoring s, .order s.order, .order o],
      r.Identified := by
    intro r hr
    simp only [List.mem_cons, List.not_mem_nil, or_false] at hr
    rcases hr with rfl | rfl | rfl | rfl | rfl <;> assumption
  obtain ⟨-, -, -, hevaluated⟩ :=
    evaluate_each_once apart identified "o" [⟨a, some "out"⟩, ⟨b, some "in"⟩] before
  obtain ⟨positives, hset, hall, -⟩ := hevaluated [a] rfl (by simp)
  cases hset
  have hdue : due [.order s.order, .order o, .scoring s, .order s.order, .order o] =
      [.scoring s, .order o] := rfl
  obtain ⟨after, hrun, hrecorded⟩ := hall (by
    intro r hr
    rw [hdue, List.mem_cons, List.mem_singleton] at hr
    rcases hr with rfl | rfl <;> exact List.cons_ne_nil _ _)
  exact ⟨after, hrun, hrecorded, hrecorded.entries⟩

end RankingEval.Evaluation
