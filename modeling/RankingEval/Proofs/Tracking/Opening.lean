/-
# How a session is opened

To open a session is one plan: choose the service, look the experiment up and make it if there is none, choose
it, and start a run. Where the plan breaks off, no run has started and there is no session; where it does not,
its run is the one that is active.
-/

import RankingEval.Proofs.Tracking.Trace

namespace RankingEval.Tracking

open RankingEval.Running

/-! ## The plan -/

section Plan

variable (s : Service) (address experiment runName id : Datum)

theorem isQuiet_of_mem_connectionPlan {c : Call} (h : c ∈ connectionPlan s address experiment) :
    c.isQuiet = true := by
  rw [connectionPlan, lookupPlan] at h
  split_ifs at h <;> simp at h <;> rcases h with rfl | rfl | rfl | rfl <;> rfl

/-- As far as the plan is carried out, a run is active if all of it was. -/
theorem follow_opening :
    follow false ((s.carriedOut (openingPlan s address experiment runName id)).map s.attempt) =
      some ((openingPlan s address experiment runName id).all s.takes) := by
  have hquiet := fun c => isQuiet_of_mem_connectionPlan s address experiment (c := c)
  -- the run is started last, so nothing but quiet calls is made before the plan breaks off
  rw [openingPlan, Service.carriedOut_append, List.all_append]
  split_ifs with hall
  · have hstart : s.carriedOut [.startRun runName id] = [Call.startRun runName id] := by
      rw [Service.carriedOut, Service.carriedOut, ite_self]
    rw [List.map_append, follow_append, follow_of_quiet s false hquiet, Option.bind_some, hstart, hall]
    simp [follow_start]
  · have hpart := s.carriedOut_isPrefix (connectionPlan s address experiment)
    rw [follow_of_quiet s false fun c hc => hquiet c (hpart.subset hc)]
    simp [hall]

/-- The plan ends no run. -/
theorem countP_ends_opening :
    ((s.carriedOut (openingPlan s address experiment runName id)).map s.attempt).countP
      Attempt.ends = 0 := by
  rw [List.countP_eq_zero]
  intro a ha
  obtain ⟨c, hc, rfl⟩ := List.mem_map.mp ha
  rcases List.mem_append.mp ((s.carriedOut_isPrefix _).subset hc) with hmem | hmem
  · simp [ends_of_quiet s (isQuiet_of_mem_connectionPlan s address experiment hmem)]
  · rw [List.mem_singleton.mp hmem]
    simp [Attempt.ends, Service.attempt, Call.verb]

/-- In the plan an experiment is made after it is looked up, and only if there is none. -/
theorem created_of_openingPlan_eq {front back : List Call} {name : Datum}
    (h : openingPlan s address experiment runName id = front ++ .createExperiment name :: back) :
    s.experiment? name = none ∧ front = [.setUri address, .getExperiment name] := by
  rw [openingPlan, connectionPlan, lookupPlan] at h
  -- the experiment is made at the third place of the plan or nowhere
  split_ifs at h with hnone
  · rcases front with _ | ⟨first, _ | ⟨second, _ | ⟨third, front⟩⟩⟩
    · simp at h
    · simp at h
    · simp at h
      obtain ⟨rfl, rfl, rfl, -⟩ := h
      exact ⟨Option.isNone_iff_eq_none.mp hnone, rfl⟩
    · simp only [List.cons_append, List.nil_append, List.cons.injEq] at h
      have hmem := List.mem_append_right front (List.mem_cons_self (a := Call.createExperiment name)
        (l := back))
      rw [← h.2.2.2] at hmem
      simp at hmem
  · have hmem := List.mem_append_right front (List.mem_cons_self (a := Call.createExperiment name)
      (l := back))
    rw [← h] at hmem
    simp at hmem

/-- As far as the plan is carried out, an experiment is made only after it was looked up and not found. -/
theorem created_opening {front back : List Attempt} {a : Attempt} {name : Datum}
    (h : (s.carriedOut (openingPlan s address experiment runName id)).map s.attempt = front ++ a :: back)
    (ha : a.call = .createExperiment name) :
    s.experiment? name = none ∧ ∃ earlier, front = earlier ++ [⟨.getExperiment name, true⟩] := by
  obtain ⟨calls, rest, hcalls, rfl, hrest⟩ := List.map_eq_append_iff.mp h
  obtain ⟨c, others, rfl, rfl, rfl⟩ := List.map_eq_cons_iff.mp hrest
  obtain rfl : c = .createExperiment name := ha
  have htaken := Service.takes_of_carriedOut_eq hcalls
  obtain ⟨beyond, hplan⟩ := s.carriedOut_isPrefix (openingPlan s address experiment runName id)
  rw [hcalls, List.append_assoc, List.cons_append] at hplan
  obtain ⟨hnone, rfl⟩ := created_of_openingPlan_eq s _ _ _ _ hplan.symm
  refine ⟨hnone, [s.attempt (.setUri address)], ?_⟩
  rw [List.all_cons, Bool.and_eq_true, List.all_cons, Bool.and_eq_true] at htaken
  rw [List.map_cons, List.map_singleton, Service.attempt, Service.attempt, htaken.2.1]
  rfl

end Plan

/-! ## The session -/

/-- What may become of the opening of a session: there is no address, the plan breaks off, or the session
stands with the run of the plan. -/
theorem openSession_cases (w : World) (experiment runName uri : Datum) :
    (uri = .missing ∧
      ∃ failure, (openSession experiment runName uri).run.run w = (.error failure, w)) ∨
    ∃ address id outcome t, (openSession experiment runName uri).run.run w = (outcome, t) ∧
      t.service.calls = w.service.calls ++
        w.service.carriedOut (openingPlan w.service address experiment runName id) ∧
      outcome.isOk = (openingPlan w.service address experiment runName id).all w.service.takes ∧
      (outcome.isOk = true → ∃ id run, t.session = some ⟨runName, id, some run⟩) ∧
      (outcome.isOk = false → t.session = w.session) := by
  rw [openSession_eq]
  rcases reach_carriesOut w experiment runName uri with ⟨huri, failure, hrun⟩ | ⟨address, id, hplan⟩
  · exact .inl ⟨huri, failure, run_bind_of_error hrun⟩
  · obtain ⟨hcalls, hok, -, hsession⟩ := hplan
    rcases hrun : (reach experiment runName uri).run.run w with ⟨failure | ⟨found, run⟩, t⟩
    · rw [hrun] at hcalls hok hsession
      exact .inr ⟨address, id, _, t, run_bind_of_error hrun, hcalls, hok, by rintro ⟨⟩,
        fun _ => hsession⟩
    · rw [hrun] at hcalls hok hsession
      exact .inr ⟨address, id, _, _, run_bind_of_ok hrun, hcalls, hok, fun _ => ⟨found, run, rfl⟩,
        by rintro ⟨⟩⟩

/-- What the opening of a session comes to where there is none yet. -/
structure Opens (w : World) (experiment runName uri : Datum) : Prop where
  /-- If it fails, no run has started and there is no session. -/
  failed : ((openSession experiment runName uri).run.run w).1.isOk = false →
    ((openSession experiment runName uri).run.run w).2.session = none ∧
      ∀ a ∈ attempts w (openSession experiment runName uri), a.starts = false
  /-- An experiment is made only directly after it was looked up and not found. -/
  created : ∀ front a back name,
    attempts w (openSession experiment runName uri) = front ++ a :: back →
      a.call = .createExperiment name →
        w.service.experiment? name = none ∧ ∃ earlier, front = earlier ++ [⟨.getExperiment name, true⟩]
  /-- At a given address, it succeeds if the service takes every call. -/
  succeeds : uri ≠ .missing → (∀ c, w.service.takes c = true) →
    ((openSession experiment runName uri).run.run w).1.isOk = true
  /-- If it succeeds, there is a session, and its calls have led to the run that is active. -/
  opened : ((openSession experiment runName uri).run.run w).1.isOk = true →
    ((openSession experiment runName uri).run.run w).2.session.isSome = true ∧
      active ((openSession experiment runName uri).run.run w).2 = true ∧
      follow false (attempts w (openSession experiment runName uri)) = some true

theorem openSession_opens {w : World} (h : w.session = none) (experiment runName uri : Datum) :
    Opens w experiment runName uri := by
  rcases openSession_cases w experiment runName uri with
    ⟨huri, failure, hrun⟩ | ⟨address, id, outcome, t, hrun, hcalls, hok, hopened, hfailed⟩
  · have hattempts : attempts w (openSession experiment runName uri) = [] :=
      attempts_eq (by rw [hrun, List.append_nil])
    have hfail : ((openSession experiment runName uri).run.run w).1.isOk = false := by rw [hrun]; rfl
    refine ⟨fun _ => ⟨by rw [hrun, h], ?_⟩, fun front a back name heq _ => ?_,
      fun hgiven _ => absurd huri hgiven, fun hok => ?_⟩
    · rw [hattempts]
      exact List.forall_mem_nil _
    · rw [hattempts] at heq
      simp at heq
    · rw [hfail] at hok
      cases hok
  · have hattempts : attempts w (openSession experiment runName uri) =
        (w.service.carriedOut (openingPlan w.service address experiment runName id)).map
          w.service.attempt := attempts_eq (by rw [hrun, hcalls])
    have hfollow := follow_opening w.service address experiment runName id
    refine ⟨fun hfail => ?_, fun front a back name => ?_, fun _ htakes => ?_, fun hsuccess => ?_⟩
    · rw [hrun] at hfail ⊢
      have hbalance := balance hfollow
      rw [countP_ends_opening, ← hok, hfail] at hbalance
      refine ⟨(hfailed hfail).trans h, fun a ha => ?_⟩
      rw [hattempts] at ha
      simpa using List.countP_eq_zero.mp hbalance a ha
    · rw [hattempts]
      exact created_opening _ _ _ _ _
    · rw [hrun, hok, List.all_eq_true]
      exact fun c _ => htakes c
    · rw [hrun] at hsuccess ⊢
      obtain ⟨found, run, hsession⟩ := hopened hsuccess
      rw [hattempts, hfollow, ← hok, hsuccess, active, hsession]
      exact ⟨rfl, rfl, rfl⟩

end RankingEval.Tracking
