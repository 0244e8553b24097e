/-
# Calls to the tracking service

What a session does to the service is a row of calls, and the service takes or refuses each of them. A
computation carries out a plan when it makes the calls of the plan one after the other until one of them is
refused, fails exactly then, and leaves the session as it is. The steps of a session are described here by
the plans that they carry out.
-/

import RankingEval.Proofs.Computation
import RankingEval.Tracking.Session

namespace RankingEval.Tracking

open RankingEval.Running

/-! ## Plans -/

/-- The service takes a call. -/
def Service.takes (s : Service) (c : Call) : Bool := (s.refusal? c).isNone

/-- The calls of a plan up to the first one that is refused. -/
def Service.carriedOut (s : Service) : List Call → List Call
  | [] => []
  | c :: plan => if s.takes c then c :: s.carriedOut plan else [c]

namespace Service

variable {s t : Service}

theorem takes_congr (h : t.refusals = s.refusals) (c : Call) : t.takes c = s.takes c := by
  rw [takes, takes, refusal?, refusal?, h]

theorem takes_of_refusal {c : Call} {refusal : Option String} (h : s.refusal? c = refusal) :
    s.takes c = refusal.isNone := by
  rw [takes, h]

theorem carriedOut_congr (h : t.refusals = s.refusals) (plan : List Call) :
    t.carriedOut plan = s.carriedOut plan := by
  induction plan with
  | nil => rfl
  | cons c plan ih => rw [carriedOut, carriedOut, takes_congr h, ih]

theorem carriedOut_append (s : Service) (plan rest : List Call) :
    s.carriedOut (plan ++ rest) =
      if plan.all s.takes then plan ++ s.carriedOut rest else s.carriedOut plan := by
  induction plan with
  | nil => rfl
  | cons c plan ih =>
      rw [List.cons_append, carriedOut, carriedOut, ih, List.all_cons]
      by_cases hc : s.takes c = true
      · by_cases hplan : plan.all s.takes = true <;> simp [hc, hplan]
      · simp [hc]

theorem carriedOut_of_all {plan : List Call} (h : plan.all s.takes = true) :
    s.carriedOut plan = plan := by
  have happend := s.carriedOut_append plan []
  rwa [if_pos h, carriedOut, List.append_nil] at happend

theorem carriedOut_isPrefix (s : Service) (plan : List Call) : s.carriedOut plan <+: plan := by
  induction plan with
  | nil => exact List.prefix_rfl
  | cons c plan ih =>
      rw [carriedOut]
      split_ifs
      · exact (List.prefix_cons_inj c).mpr ih
      · exact (List.prefix_cons_inj c).mpr List.nil_prefix

/-- Only the last call that was made can have been refused. -/
theorem takes_of_carriedOut_eq {plan front back : List Call} {c : Call}
    (h : s.carriedOut plan = front ++ c :: back) : front.all s.takes = true := by
  induction plan generalizing front with
  | nil => simp [carriedOut] at h
  | cons first plan ih =>
      cases front with
      | nil => rfl
      | cons other front =>
          rw [carriedOut] at h
          split_ifs at h with hfirst
          · rw [List.cons_append, List.cons.injEq] at h
            rw [List.all_cons, ih h.2, ← h.1, hfirst]
            rfl
          · simp at h

end Service

/-! ## What carries a plan out -/

variable {α β : Type}

/-- A call is noted, whether it is taken or refused. -/
theorem run_call (w : World) (c : Call) :
    (call c).run.run w =
      (match w.service.refusal? c with
        | some reason => .error (.trackingRefused reason)
        | none => .ok (),
      { w with service := w.service.noting c }) := by
  change ((match w.service.refusal? c with
    | some reason => throw (.trackingRefused reason)
    | none => pure () : Running Unit).run.run { w with service := w.service.noting c }) = _
  cases w.service.refusal? c <;> rfl

theorem eq_of_run_call {w t : World} {c : Call} (h : (call c).run.run w = (.ok (), t)) :
    t = { w with service := w.service.noting c } := by
  rw [run_call] at h
  exact (congrArg Prod.snd h).symm

/-- A computation carries out a plan. -/
structure CarriesOut (w : World) (act : Running α) (plan : List Call) : Prop where
  /-- The calls are made in order, up to the first one that is refused. -/
  calls : (act.run.run w).2.service.calls = w.service.calls ++ w.service.carriedOut plan
  /-- The computation succeeds if no call is refused. -/
  isOk : (act.run.run w).1.isOk = plan.all w.service.takes
  /-- What the service refuses does not change. -/
  refusals : (act.run.run w).2.service.refusals = w.service.refusals
  /-- The session stays as it is. -/
  session : (act.run.run w).2.session = w.session

namespace CarriesOut

variable {w : World} {act : Running α} {plan : List Call}

theorem of_run_eq {w' : World} {act' : Running α} (h : CarriesOut w' act' plan)
    (hrun : act.run.run w = act'.run.run w') (hservice : w'.service = w.service)
    (hsession : w'.session = w.session) : CarriesOut w act plan where
  calls := by rw [hrun, h.calls, hservice]
  isOk := by rw [hrun, h.isOk, hservice]
  refusals := by rw [hrun, h.refusals, hservice]
  session := by rw [hrun, h.session, hsession]

theorem of_ok {a : α} {t : World} (hrun : act.run.run w = (.ok a, t))
    (hcalls : t.service.calls = w.service.calls)
    (hrefusals : t.service.refusals = w.service.refusals) (hsession : t.session = w.session) :
    CarriesOut w act [] where
  calls := by rw [hrun, hcalls, Service.carriedOut, List.append_nil]
  isOk := by rw [hrun]; rfl
  refusals := by rw [hrun, hrefusals]
  session := by rw [hrun, hsession]

protected theorem pure (w : World) (a : α) : CarriesOut w (pure a : Running α) [] :=
  of_ok rfl rfl rfl rfl

theorem report (w : World) (level : Level) (text : String) :
    CarriesOut w (Running.report level .tracking text) [] :=
  of_ok rfl rfl rfl rfl

theorem call (w : World) (c : Call) : CarriesOut w (Tracking.call c) [c] := by
  constructor <;> rw [run_call] <;> cases h : w.service.refusal? c <;>
    simp [Service.carriedOut, Service.takes, h, Service.noting, Except.isOk, Except.toBool]

/-- A plan goes on with what a computation does after a success. -/
protected theorem bind {next : α → Running β} {rest : List Call} (hact : CarriesOut w act plan)
    (hnext : ∀ a t, act.run.run w = (.ok a, t) → CarriesOut t (next a) rest) :
    CarriesOut w (act >>= next) (plan ++ rest) := by
  obtain ⟨hcalls, hok, hrefusals, hsession⟩ := hact
  rcases hrun : act.run.run w with ⟨outcome, t⟩
  rw [hrun] at hcalls hok hrefusals hsession
  cases outcome with
  | error failure =>
      have hrefused : plan.all w.service.takes = false := hok.symm
      constructor <;> rw [run_bind_of_error hrun]
      · rw [hcalls, Service.carriedOut_append, if_neg (by rw [hrefused]; decide)]
      · rw [List.all_append, hrefused]
        rfl
      · exact hrefusals
      · exact hsession
  | ok a =>
      have htaken : plan.all w.service.takes = true := hok.symm
      obtain ⟨hcalls', hok', hrefusals', hsession'⟩ := hnext a t hrun
      constructor <;> rw [run_bind_of_ok hrun]
      · rw [hcalls', hcalls, Service.carriedOut_append, if_pos htaken, Service.carriedOut_of_all htaken,
          Service.carriedOut_congr hrefusals, List.append_assoc]
      · rw [hok', List.all_append, htaken, Bool.true_and, funext (Service.takes_congr hrefusals)]
      · rw [hrefusals', hrefusals]
      · rw [hsession', hsession]

/-- A plan may start with something that calls nothing. -/
protected theorem bind_nil {next : α → Running β} {rest : List Call} (hact : CarriesOut w act [])
    (hnext : ∀ a t, act.run.run w = (.ok a, t) → CarriesOut t (next a) rest) :
    CarriesOut w (act >>= next) rest :=
  hact.bind hnext

/-- What looks at the world first does what it does in this world. -/
protected theorem get {next : World → Running α} (hnext : CarriesOut w (next w) plan) :
    CarriesOut w (do next (← get)) plan :=
  ⟨hnext.calls, hnext.isOk, hnext.refusals, hnext.session⟩

/-- A failure that is reported and passed on was a failure all the same. -/
protected theorem reporting (hact : CarriesOut w act plan) (text : Failure → String) :
    CarriesOut w
      (tryCatch act fun failure => do
        Running.report .error .tracking (text failure)
        throw failure) plan := by
  obtain ⟨hcalls, hok, hrefusals, hsession⟩ := hact
  rcases hrun : act.run.run w with ⟨outcome, t⟩
  rw [hrun] at hcalls hok hrefusals hsession
  cases outcome with
  | ok a => constructor <;> rw [run_tryCatch_of_ok hrun] <;> assumption
  | error failure => constructor <;> rw [run_tryCatch_of_error hrun] <;> assumption

end CarriesOut

/-! ## Notes -/

/-- The entry that tells what was noted, or that it was refused. -/
def noteEntry (s : Service) (c : Call) (what done : String) : Entry :=
  match s.refusal? c with
  | none => ⟨.debug, .tracking, done⟩
  | some reason => ⟨.error, .tracking, "Error " ++ what ++ ": " ++ reason⟩

/-- A note is one call. Whether it is taken or refused is only reported. -/
theorem run_note (w : World) (c : Call) (what done : String) :
    (note c what done).run.run w =
      (.ok (), { w with
        service := w.service.noting c
        evaluation := { w.evaluation with
          journal := w.evaluation.journal ++ [noteEntry w.service c what done] } }) := by
  have hcall := run_call w c
  rw [note, noteEntry]
  cases h : w.service.refusal? c with
  | none =>
      rw [h] at hcall
      exact run_tryCatch_of_ok (run_bind_of_ok hcall)
  | some reason =>
      rw [h] at hcall
      exact run_tryCatch_of_error (run_bind_of_error hcall)

end RankingEval.Tracking
