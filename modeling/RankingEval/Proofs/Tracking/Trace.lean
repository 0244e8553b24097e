/-
# Traces of calls

A trace tells which calls were made and whether each of them was taken. It starts and ends runs in turn if a
run is started only where none is active, and ended only where one is. What keeps account of the run makes
calls that do so, from the run that is active before to the one that is active afterwards; this composes, and
therefore the starts and ends of a whole trace balance.
-/

import RankingEval.Proofs.Tracking.Steps

namespace RankingEval.Tracking

open RankingEval.Running

/-! ## Traces -/

/-- A call that was made, and whether the service took it. -/
structure Attempt where
  /-- The call. -/
  call : Call
  /-- The service took it. -/
  taken : Bool

/-- A call as it turns out at the service. -/
def Service.attempt (s : Service) (c : Call) : Attempt := ⟨c, s.takes c⟩

namespace Attempt

/-- It started a run. -/
def starts (a : Attempt) : Bool := a.call.verb == .startRun && a.taken

/-- It ended a run. -/
def ends (a : Attempt) : Bool := a.call.verb == .endRun && a.taken

/-- Whether a run is active afterwards; a start has no place where one is, and an end where none is. -/
def follow (active : Bool) (a : Attempt) : Option Bool :=
  match a.call.verb with
  | .startRun => if active then none else some a.taken
  | .endRun => if active then some !a.taken else none
  | _ => some active

end Attempt

/-- Whether a run is active after a trace, if its starts and ends take turns. -/
def follow (active : Bool) (trace : List Attempt) : Option Bool := trace.foldlM Attempt.follow active

theorem follow_append (active : Bool) (front back : List Attempt) :
    follow active (front ++ back) = (follow active front).bind (follow · back) :=
  List.foldlM_append

/-- A call that neither starts nor ends a run. -/
def Call.isQuiet (c : Call) : Bool := c.verb != .startRun && c.verb != .endRun

theorem follow_of_quiet (s : Service) (active : Bool) {calls : List Call}
    (h : ∀ c ∈ calls, c.isQuiet = true) : follow active (calls.map s.attempt) = some active := by
  induction calls with
  | nil => rfl
  | cons c calls ih =>
      have hc : (s.attempt c).follow active = some active := by
        have hquiet := h c List.mem_cons_self
        cases c <;> first | rfl | cases hquiet
      rw [List.map_cons, follow, List.foldlM_cons, hc]
      exact ih fun c hc => h c (List.mem_cons_of_mem _ hc)

theorem ends_of_quiet (s : Service) {c : Call} (h : c.isQuiet = true) : (s.attempt c).ends = false := by
  cases c <;> first | rfl | cases h

theorem follow_start (s : Service) (runName experiment : Datum) :
    follow false [s.attempt (.startRun runName experiment)] =
      some (s.takes (.startRun runName experiment)) := rfl

/-- Where a run is active, it is until an end is taken. -/
theorem follow_end (s : Service) (status : Datum) :
    follow true [s.attempt (.endRun status)] = some !s.takes (.endRun status) := rfl

/-- One attempt moves the balance of starts and ends as it moves the run. -/
theorem Attempt.balance {a : Attempt} {active later : Bool} (h : a.follow active = some later) :
    a.starts.toNat + active.toNat = a.ends.toNat + later.toNat := by
  obtain ⟨c, taken⟩ := a
  cases c <;> cases active <;> cases taken <;> cases h <;> rfl

/-- Starts and ends balance along a trace, up to the run that is active. -/
theorem balance {trace : List Attempt} {active later : Bool} (h : follow active trace = some later) :
    trace.countP Attempt.starts + active.toNat = trace.countP Attempt.ends + later.toNat := by
  induction trace generalizing active with
  | nil =>
      cases h
      simp
  | cons a trace ih =>
      rw [follow, List.foldlM_cons, Option.bind_eq_bind, Option.bind_eq_some_iff] at h
      obtain ⟨between, hfirst, hrest⟩ := h
      have hmoved := Attempt.balance hfirst
      have hbalance := ih hrest
      rw [List.countP_cons, List.countP_cons]
      cases hs : a.starts <;> cases he : a.ends <;> simp [hs, he] at hmoved ⊢ <;> omega

/-- Where a run is started, the ones that were started before have ended. -/
theorem balance_of_start {front back : List Attempt} {a : Attempt} {active later : Bool}
    (h : follow active (front ++ a :: back) = some later) (hstart : a.call.verb = .startRun) :
    front.countP Attempt.starts + active.toNat = front.countP Attempt.ends := by
  rw [follow_append, Option.bind_eq_some_iff] at h
  obtain ⟨between, hfront, hback⟩ := h
  have hnone : between = false := by
    rw [follow, List.foldlM_cons, Attempt.follow, hstart] at hback
    cases between
    · rfl
    · cases hback
  have hbalance := balance hfront
  rwa [hnone] at hbalance

/-- A trace starts and ends runs one at a time, and leaves a run active or not. -/
structure Balanced (trace : List Attempt) (active : Bool) : Prop where
  /-- One run more was started than ended if a run is active, and as many otherwise. -/
  balance : trace.countP Attempt.starts = trace.countP Attempt.ends + active.toNat
  /-- Whenever a run is started, the ones that were started before have ended. -/
  alone : ∀ front a back, trace = front ++ a :: back → a.call.verb = .startRun →
    front.countP Attempt.starts = front.countP Attempt.ends

theorem balanced_of_follow {trace : List Attempt} {active : Bool} (h : follow false trace = some active) :
    Balanced trace active where
  balance := balance h
  alone := by
    rintro front a back rfl hstart
    exact balance_of_start h hstart

/-! ## Keeping account -/

variable {α β : Type}

/-- The calls that a computation makes in a world, as they turn out. -/
def attempts (w : World) (act : Running α) : List Attempt :=
  ((act.run.run w).2.service.calls.drop w.service.calls.length).map w.service.attempt

/-- A computation adds calls to those that were made, and these calls lead from the run that is active before
to the one that is active afterwards. -/
structure KeepsAccount (w : World) (act : Running α) : Prop where
  /-- Calls that were made are not forgotten. -/
  calls : w.service.calls <+: (act.run.run w).2.service.calls
  /-- What the service refuses does not change. -/
  refusals : (act.run.run w).2.service.refusals = w.service.refusals
  /-- The calls follow the run. -/
  follows : follow (active w) (attempts w act) = some (active (act.run.run w).2)
  /-- A session stays there. -/
  session : (act.run.run w).2.session.isSome = w.session.isSome

theorem attempt_congr {s t : Service} (h : t.refusals = s.refusals) : t.attempt = s.attempt :=
  funext fun c => by rw [Service.attempt, Service.attempt, Service.takes_congr h]

theorem attempts_eq {w : World} {act : Running α} {made : List Call}
    (h : (act.run.run w).2.service.calls = w.service.calls ++ made) :
    attempts w act = made.map w.service.attempt := by
  rw [attempts, h, List.drop_left]

namespace KeepsAccount

variable {w t : World} {act : Running α} {outcome : Except Failure α} {made : List Call}

theorem of_calls (hrun : act.run.run w = (outcome, t))
    (hcalls : t.service.calls = w.service.calls ++ made)
    (hrefusals : t.service.refusals = w.service.refusals)
    (hfollows : follow (active w) (made.map w.service.attempt) = some (active t))
    (hsession : t.session.isSome = w.session.isSome) : KeepsAccount w act := by
  have ht : (act.run.run w).2 = t := congrArg Prod.snd hrun
  subst ht
  exact ⟨hcalls ▸ List.prefix_append _ _, hrefusals, (attempts_eq hcalls).symm ▸ hfollows, hsession⟩

theorem of_run_eq {act' : Running α} (h : KeepsAccount w act') (hrun : act.run.run w = act'.run.run w) :
    KeepsAccount w act := by
  obtain ⟨hcalls, hrefusals, hfollows, hsession⟩ := h
  rw [attempts] at hfollows
  rw [← hrun] at hcalls hrefusals hfollows hsession
  exact ⟨hcalls, hrefusals, hfollows, hsession⟩

theorem of_quiet (hrun : act.run.run w = (outcome, t))
    (hcalls : t.service.calls = w.service.calls ++ made)
    (hrefusals : t.service.refusals = w.service.refusals) (hsession : t.session = w.session)
    (hquiet : ∀ c ∈ made, c.isQuiet = true) : KeepsAccount w act :=
  of_calls hrun hcalls hrefusals
    (by rw [follow_of_quiet _ _ hquiet, active, active, hsession]) (by rw [hsession])

theorem of_no_call (hrun : act.run.run w = (outcome, t)) (hservice : t.service = w.service)
    (hsession : t.session = w.session) : KeepsAccount w act :=
  of_quiet hrun (by rw [hservice, List.append_nil]) (congrArg Service.refusals hservice) hsession
    (List.forall_mem_nil _)

/-- Account is kept along a sequence. -/
protected theorem bind {next : α → Running β} (hact : KeepsAccount w act)
    (hnext : ∀ a t, act.run.run w = (.ok a, t) → KeepsAccount t (next a)) :
    KeepsAccount w (act >>= next) := by
  obtain ⟨⟨made, hmade⟩, hrefusals, hfollows, hsession⟩ := hact
  rw [attempts_eq hmade.symm] at hfollows
  -- what is refused does not change in between, so both parts of the trace are read in one service
  rcases hrun : act.run.run w with ⟨outcome, t⟩
  rw [hrun] at hmade hrefusals hfollows hsession
  cases outcome with
  | error failure => exact .of_calls (run_bind_of_error hrun) hmade.symm hrefusals hfollows hsession
  | ok a =>
      obtain ⟨⟨later, hlater⟩, hrefusals', hfollows', hsession'⟩ := hnext a t hrun
      rw [attempts_eq hlater.symm, attempt_congr hrefusals] at hfollows'
      have hcalls : ((next a).run.run t).2.service.calls = w.service.calls ++ (made ++ later) := by
        rw [← hlater, ← hmade, List.append_assoc]
      refine .of_calls (run_bind_of_ok hrun) hcalls (hrefusals'.trans hrefusals) ?_
        (hsession'.trans hsession)
      rw [List.map_append, follow_append, hfollows, Option.bind_some]
      exact hfollows'

end KeepsAccount

end RankingEval.Tracking
