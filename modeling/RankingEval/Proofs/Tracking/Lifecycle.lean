/-
# The life of a run

A session is opened with a run, and after that anything may be done in it, in any order and however often the
service refuses what it is asked. Every operation keeps account of the run, so a session never starts a run
while an earlier one is active, and at any time it has started one run more than it has ended if a run is
active, and as many otherwise. To start a run is a plan that ends the active one before. Notes are made once
each and cost nothing, and a block of work ends the run once.
-/

import RankingEval.Proofs.Tracking.Opening

namespace RankingEval.Tracking

open RankingEval.Running

variable {w : World}

/-! ## Account of each step -/

/-- What may become of the end of a run: there is none, its end is refused, or it ends. -/
theorem endRun_cases (w : World) (status : Datum) :
    (active w = false ∧ (endRun status).run.run w = (.ok (), w)) ∨
    (active w = true ∧ w.service.takes (.endRun status) = false ∧ ∃ reason t,
      (endRun status).run.run w = (.error (.trackingRefused reason), t) ∧
        t.service = w.service.noting (.endRun status) ∧ active t = true ∧ t.session.isSome = true) ∨
    (active w = true ∧ w.service.takes (.endRun status) = true ∧ ∃ t,
      (endRun status).run.run w = (.ok (), t) ∧
        t.service = w.service.noting (.endRun status) ∧ active t = false ∧ t.session.isSome = true) := by
  cases hactive : active w with
  | false => exact .inl ⟨rfl, run_endRun_of_inactive hactive status⟩
  | true =>
      obtain ⟨runName, experiment, run, hsession⟩ := exists_session_of_active hactive
      have hrun := run_endRun_of_active hsession status
      rw [Service.takes]
      cases hrefusal : w.service.refusal? (.endRun status) with
      | some reason =>
          rw [hrefusal] at hrun
          exact .inr (.inl ⟨rfl, rfl, reason, _, hrun, rfl, hactive, by rw [hsession]; rfl⟩)
      | none =>
          rw [hrefusal] at hrun
          exact .inr (.inr ⟨rfl, rfl, _, hrun, rfl, rfl, rfl⟩)

theorem isSome_session_of_active (h : active w = true) : w.session.isSome = true := by
  obtain ⟨runName, experiment, run, hsession⟩ := exists_session_of_active h
  rw [hsession]
  rfl

theorem endRun_keepsAccount (w : World) (status : Datum) : KeepsAccount w (endRun status) := by
  rcases endRun_cases w status with
    ⟨-, hrun⟩ | ⟨hactive, htakes, reason, t, hrun, hservice, ht, hsession⟩ |
      ⟨hactive, htakes, t, hrun, hservice, ht, hsession⟩
  · exact .of_no_call hrun rfl rfl
  all_goals
    refine .of_calls hrun (congrArg Service.calls hservice) (hservice ▸ rfl) ?_
      (hsession.trans (isSome_session_of_active hactive).symm)
    rw [ht, hactive, List.map_singleton, follow_end, htakes]
    rfl

theorem startRun_keepsAccount_of_inactive (h : active w = false) : KeepsAccount w startRun := by
  rcases hsession : w.session with _ | ⟨runName, experiment, _ | run⟩
  · have hrun : startRun.run.run w = (.ok none, w) := by
      obtain ⟨evaluation, files, service, session⟩ := w
      cases hsession
      rfl
    exact .of_no_call hrun rfl rfl
  · have hrun := run_startRun_of_inactive hsession
    cases hrefusal : w.service.refusal? (.startRun runName experiment) with
    | some reason =>
        rw [hrefusal] at hrun
        refine .of_calls hrun rfl rfl ?_ rfl
        have hstays : active { w with service := w.service.noting (.startRun runName experiment) } =
            active w := rfl
        rw [hstays, h, List.map_singleton, follow_start, Service.takes, hrefusal]
        rfl
    | none =>
        rw [hrefusal] at hrun
        refine .of_calls hrun rfl rfl ?_ (by rw [hsession]; rfl)
        rw [h, List.map_singleton, follow_start, Service.takes, hrefusal]
        rfl
  · rw [active, hsession] at h
    cases h

theorem report_keepsAccount (w : World) (level : Level) (text : String) :
    KeepsAccount w (report level .tracking text) :=
  .of_no_call rfl rfl rfl

theorem active_of_endRun_ok {t : World} {status : Datum} (h : (endRun status).run.run w = (.ok (), t)) :
    active t = false := by
  rcases endRun_cases w status with
    ⟨hactive, hrun⟩ | ⟨-, -, reason, u, hrun, -⟩ | ⟨-, -, u, hrun, -, hactive, -⟩ <;>
    rw [hrun] at h <;> cases h
  · exact hactive
  · exact hactive

theorem startRun_keepsAccount (w : World) : KeepsAccount w startRun := by
  cases hactive : active w with
  | false => exact startRun_keepsAccount_of_inactive hactive
  | true =>
      obtain ⟨runName, experiment, run, hsession⟩ := exists_session_of_active hactive
      refine .of_run_eq ?_ (run_startRun_of_active hsession)
      refine (report_keepsAccount w _ _).bind fun _ t _ => ?_
      refine (endRun_keepsAccount t finished).bind fun _ u hend => ?_
      exact startRun_keepsAccount_of_inactive (active_of_endRun_ok hend)

/-- A note makes its call, whatever comes of it, and leaves the session and the results alone. -/
theorem exists_run_note (w : World) (c : Call) (what done : String) :
    ∃ t, (note c what done).run.run w = (.ok (), t) ∧ t.service = w.service.noting c ∧
      t.session = w.session ∧
      ∀ s, Evaluation.Agrees s w.evaluation → Evaluation.Agrees s t.evaluation :=
  ⟨_, run_note w c what done, rfl, rfl, fun _ h => ⟨h.store, h.curve, h.area⟩⟩

theorem note_keepsAccount (w : World) {c : Call} (hquiet : c.isQuiet = true) (what done : String) :
    KeepsAccount w (note c what done) :=
  .of_quiet (run_note w c what done) rfl rfl rfl (List.forall_mem_singleton.mpr hquiet)

theorem evaluating_keepsAccount {α : Type} (w : World) (act : Evaluating α) :
    KeepsAccount w (evaluating act) :=
  .of_no_call rfl rfl rfl

theorem logCurves_keepsAccount (w : World) (file : Datum) : KeepsAccount w (logCurves file) := by
  refine (evaluating_keepsAccount w _).bind fun areas t _ => ?_
  refine (note_keepsAccount t rfl _ _).bind fun _ u _ => ?_
  exact (evaluating_keepsAccount u _).bind fun text v _ => note_keepsAccount v rfl _ _

/-! ## Histories -/

/-- What may be done in a session. -/
inductive Operation where
  /-- Start a run. -/
  | startRun
  /-- End the run with a status. -/
  | endRun (status : Datum)
  /-- Note parameters. -/
  | logParams (fields : Fields)
  /-- Note metrics. -/
  | logMetrics (fields : Fields) (step : Datum)
  /-- Keep a text. -/
  | logText (text : String) (file : Datum)
  /-- Tag the run. -/
  | setTags (fields : Fields)
  /-- Note the areas of all results, and keep their text. -/
  | logCurves (file : Datum)
  /-- Leave a block of work, which ended well or in a failure. -/
  | close (well : Bool)

namespace Operation

/-- The computation of an operation. -/
def act : Operation → Running Unit
  | .startRun => do let _ ← Tracking.startRun
  | .endRun status => Tracking.endRun status
  | .logParams fields => Tracking.logParams fields
  | .logMetrics fields step => Tracking.logMetrics fields step
  | .logText text file => Tracking.logText text file
  | .setTags fields => Tracking.setTags fields
  | .logCurves file => Tracking.logCurves file
  | .close well => Tracking.close well

/-- The call of an operation that notes something. -/
def noted? : Operation → Option Call
  | .logParams fields => some (.logParams fields)
  | .logMetrics fields step => some (.logMetrics fields step)
  | .logText text file => some (.logText text file)
  | .setTags fields => some (.setTags fields)
  | _ => none

/-- Every operation keeps account of the run, in every world. -/
theorem keepsAccount (op : Operation) (w : World) : KeepsAccount w op.act := by
  cases op with
  | startRun =>
      exact (startRun_keepsAccount w).bind fun _ _ _ => .of_no_call rfl rfl rfl
  | endRun status => exact endRun_keepsAccount w status
  | logParams fields => exact note_keepsAccount w rfl _ _
  | logMetrics fields step => exact note_keepsAccount w rfl _ _
  | logText text file => exact note_keepsAccount w rfl _ _
  | setTags fields => exact note_keepsAccount w rfl _ _
  | logCurves file => exact logCurves_keepsAccount w file
  | close well => exact endRun_keepsAccount w _

/-- What notes something succeeds with one call, taken or not, and leaves the session alone. -/
theorem run_of_noted {op : Operation} {c : Call} (h : op.noted? = some c) (w : World) :
    (op.act.run.run w).1 = .ok () ∧
      (op.act.run.run w).2.service.calls = w.service.calls ++ [c] ∧
      (op.act.run.run w).2.session = w.session := by
  cases op <;> cases h <;> exact ⟨congrArg Prod.fst (run_note ..),
    congrArg (·.2.service.calls) (run_note ..), congrArg (·.2.session) (run_note ..)⟩

end Operation

/-- An operation at some time: the results that are there by then, and what the service refuses. -/
structure Occasion where
  /-- The results. -/
  evaluation : Evaluation.State
  /-- What the service refuses. -/
  refusals : List (Verb × String)
  /-- The operation. -/
  operation : Operation

namespace Occasion

/-- The world in which the operation takes place. -/
def around (o : Occasion) (w : World) : World :=
  { w with evaluation := o.evaluation, service := { w.service with refusals := o.refusals } }

/-- The world that an occasion leaves. -/
def after (o : Occasion) (w : World) : World := (o.operation.act.run.run (o.around w)).2

end Occasion

/-- The world after some occasions. -/
def later (w : World) (occasions : List Occasion) : World := occasions.foldl (fun w o => o.after w) w

/-- The trace of some occasions. -/
def trace (w : World) : List Occasion → List Attempt
  | [] => []
  | o :: occasions => attempts (o.around w) o.operation.act ++ trace (o.after w) occasions

/-- The trace of a history leads from the run that is active before to the one that is active afterwards. -/
theorem follow_trace (w : World) (occasions : List Occasion) :
    follow (active w) (trace w occasions) = some (active (later w occasions)) := by
  induction occasions generalizing w with
  | nil => rfl
  | cons o occasions ih =>
      have hstep := (o.operation.keepsAccount (o.around w)).follows
      rw [trace, follow_append]
      change (follow (active (o.around w)) _).bind _ = _
      rw [hstep]
      exact ih (o.after w)

theorem isSome_session_later (w : World) (occasions : List Occasion) :
    (later w occasions).session.isSome = w.session.isSome := by
  induction occasions generalizing w with
  | nil => rfl
  | cons o occasions ih =>
      exact (ih (o.after w)).trans (o.operation.keepsAccount (o.around w)).session

/-! ## The curves -/

/-- What reads the results in an evaluation reads them in the world, and leaves the rest of it alone. -/
theorem run_evaluating_of_reads {α : Type} {s : Evaluation.State} {act : Evaluating α}
    {value : Except Failure α} (h : Reads (Evaluation.Agrees s) act value)
    (hw : Evaluation.Agrees s w.evaluation) :
    ∃ evaluation, (evaluating act).run.run w = (value, { w with evaluation }) ∧
      Evaluation.Agrees s evaluation := by
  obtain ⟨hvalue, hkept⟩ := h w.evaluation hw
  refine ⟨(act.run.run w.evaluation).2, ?_, hkept⟩
  rw [← hvalue]
  rfl

/-- Where the areas can be read, they are handed over with the text, even if the metrics are refused. -/
theorem run_logCurves {areas : List (String × Float)} (w : World) (file : Datum)
    (h : (Evaluation.summary.run.run w.evaluation).1 = .ok areas) :
    ∃ text, (Evaluation.text.run.run w.evaluation).1 = .ok text ∧
      ((logCurves file).run.run w).1 = .ok () ∧
      ((logCurves file).run.run w).2.service.calls =
        w.service.calls ++ [.logMetrics (areaMetrics areas) .missing, .logText text file] ∧
      ((logCurves file).run.run w).2.session = w.session := by
  have hsummary := Evaluation.reads_summary w.evaluation
  have htext := Evaluation.reads_text w.evaluation
  have hisOk := Evaluation.isOk_text_eq_isOk_summary w.evaluation
  rw [h] at hisOk
  rw [← (hsummary _ (.refl _)).1, h] at hsummary
  rcases hvalue : (Evaluation.text.run.run w.evaluation).1 with failure | text
  · rw [hvalue] at hisOk
    cases hisOk
  rw [← (htext _ (.refl _)).1, hvalue] at htext
  -- reading the areas and noting them keeps the results, so the text is still the one from before
  obtain ⟨e, hareas, he⟩ := run_evaluating_of_reads hsummary (.refl _)
  obtain ⟨t, hmetrics, ht, htsession, htkept⟩ := exists_run_note { w with evaluation := e }
    (.logMetrics (areaMetrics areas) .missing) "logging metrics"
    ("Logged " ++ toString (areaMetrics areas).length ++ " metrics at step " ++ Datum.missing.asText)
  obtain ⟨e', hagain, -⟩ := run_evaluating_of_reads htext (htkept _ he)
  obtain ⟨u, hkeep, hu, husession, -⟩ := exists_run_note { t with evaluation := e' }
    (.logText text file) "logging text" ("Logged text to " ++ file.asText)
  have hrun : (logCurves file).run.run w = (.ok (), u) :=
    (run_bind_of_ok hareas).trans ((run_bind_of_ok hmetrics).trans
      ((run_bind_of_ok hagain).trans hkeep))
  refine ⟨text, rfl, ?_⟩
  rw [hrun]
  refine ⟨rfl, ?_, husession.trans htsession⟩
  rw [hu, Service.noting, ht, Service.noting, List.append_assoc]
  rfl

/-! ## Blocks of work -/

/-- Some work whose run is ended afterwards. -/
def block (work : Running Unit) : Running Unit := do
  try work
  catch failure =>
    close false
    throw failure
  close true

theorem within_eq (experiment uri : Datum) (work : Running Unit) :
    within experiment uri work = openSession experiment .missing uri >>= fun _ => block work := rfl

/-- The status with which a run ends after some work. -/
def closingStatus (body : Except Failure Unit × World) : Datum := if body.1.isOk then finished else failed

/-- What is left of some work when its block is left. -/
structure Closes (body left : Except Failure Unit × World) : Prop where
  /-- An active run is ended by one call, with a status that tells how the work ended. -/
  calls : left.2.service.calls =
    body.2.service.calls ++ if active body.2 then [.endRun (closingStatus body)] else []
  /-- The run stays active if the service refuses that call. -/
  active_eq : active left.2 = (active body.2 && !body.2.service.takes (.endRun (closingStatus body)))
  /-- The work turns out as it did, in a failure as well. -/
  outcome : active body.2 = false ∨ body.2.service.takes (.endRun (closingStatus body)) = true →
    left.1 = body.1
  /-- It fails if the service refuses the call. -/
  refused : active body.2 = true → body.2.service.takes (.endRun (closingStatus body)) = false →
    ∃ reason, left.1 = .error (.trackingRefused reason)

/-- After the work, the run is ended, and then the work turns out as it did. -/
theorem run_block {w t : World} {work : Running Unit} {outcome : Except Failure Unit}
    (h : work.run.run w = (outcome, t)) :
    (block work).run.run w =
      (endRun (closingStatus (outcome, t)) >>= fun _ => (liftM outcome : Running Unit)).run.run t := by
  cases outcome with
  | ok =>
      have hclose : endRun finished = endRun finished >>= fun _ => pure () := bind_pure_unit.symm
      exact (run_bind_of_ok (run_tryCatch_of_ok h)).trans
        (congrArg (fun act : Running Unit => act.run.run t) hclose)
  | error failure =>
      have hstatus : closingStatus (.error failure, t) = failed := rfl
      rw [hstatus]
      rcases hend : (endRun failed).run.run t with ⟨_ | _, u⟩
      · rw [block, run_bind_of_error ((run_tryCatch_of_error h).trans (run_bind_of_error hend)),
          run_bind_of_error hend]
      · rw [block, run_bind_of_error ((run_tryCatch_of_error h).trans (run_bind_of_ok hend)),
          run_bind_of_ok hend]
        rfl

/-- Leaving a block ends its run once, and swallows nothing. -/
theorem block_closes (w : World) (work : Running Unit) :
    Closes (work.run.run w) ((block work).run.run w) := by
  rcases hwork : work.run.run w with ⟨outcome, t⟩
  rw [run_block hwork]
  have hthrough (u : World) : (liftM outcome : Running Unit).run.run u = (outcome, u) := by
    cases outcome <;> rfl
  rcases endRun_cases t (closingStatus (outcome, t)) with
    ⟨hactive, hend⟩ | ⟨hactive, htakes, reason, u, hend, hservice, hu, -⟩ |
      ⟨hactive, htakes, u, hend, hservice, hu, -⟩
  · rw [run_bind_of_ok hend, hthrough]
    constructor <;> simp [hactive]
  · rw [run_bind_of_error hend]
    constructor <;> simp [hactive, htakes, hu, hservice, Service.noting]
  · rw [run_bind_of_ok hend, hthrough]
    constructor <;> simp [hactive, htakes, hu, hservice, Service.noting]

/-! ## Starting -/

/-- The calls that start a run in a session: an active run is ended before, as one that ended well. -/
def startingPlan (session : Session) : List Call :=
  (if session.run.isSome then [.endRun finished] else []) ++
    [.startRun session.runName session.experiment]

/-- What comes of starting a run in a session. -/
structure Starts (w : World) (session : Session) (last : Except Failure (Option String) × World) : Prop where
  /-- The plan is carried out: one call ends the active run, if there is one, and one call starts the next. -/
  calls : last.2.service.calls = w.service.calls ++ w.service.carriedOut (startingPlan session)
  /-- If the service takes these calls, the run that it starts is the one of the session. -/
  started : (startingPlan session).all w.service.takes = true →
    last.1 = .ok (some w.service.withRun.2) ∧
      last.2.session = some { session with run := some w.service.withRun.2 }
  /-- If it refuses one, that is the failure. The run of the session is the one before, unless that has ended. -/
  refused : (startingPlan session).all w.service.takes = false →
    (∃ reason, last.1 = .error (.trackingRefused reason)) ∧
      last.2.session =
        some { session with run := if w.service.takes (.endRun finished) then none else session.run }

theorem startRun_starts_of_inactive {runName experiment : Datum}
    (h : w.session = some ⟨runName, experiment, none⟩) :
    Starts w ⟨runName, experiment, none⟩ (startRun.run.run w) := by
  have hrun := run_startRun_of_inactive h
  have hplan : startingPlan ⟨runName, experiment, none⟩ = [.startRun runName experiment] := rfl
  cases hrefusal : w.service.refusal? (.startRun runName experiment) with
  | some reason =>
      have htakes : w.service.takes (.startRun runName experiment) = false :=
        Service.takes_of_refusal hrefusal
      rw [hrefusal] at hrun
      rw [hrun]
      constructor <;> simp [hplan, htakes, Service.carriedOut, Service.noting, h]
  | none =>
      have htakes : w.service.takes (.startRun runName experiment) = true :=
        Service.takes_of_refusal hrefusal
      rw [hrefusal] at hrun
      rw [hrun]
      constructor <;> simp [hplan, htakes, Service.carriedOut, Service.noting, Service.withRun]

/-- A start after the end of a run is a start where that run was active. -/
theorem Starts.of_ended {t : World} {runName experiment : Datum} {run : String}
    {last : Except Failure (Option String) × World}
    (hservice : t.service = w.service.noting (.endRun finished))
    (hended : w.service.takes (.endRun finished) = true)
    (h : Starts t ⟨runName, experiment, none⟩ last) : Starts w ⟨runName, experiment, some run⟩ last := by
  have hrefusals : t.service.refusals = w.service.refusals := by rw [hservice, Service.noting]
  have htakes : t.service.takes = w.service.takes := funext (Service.takes_congr hrefusals)
  have hname : t.service.withRun.2 = w.service.withRun.2 := by
    rw [hservice, Service.noting]
    rfl
  have hplan : startingPlan ⟨runName, experiment, some run⟩ =
      .endRun finished :: startingPlan ⟨runName, experiment, none⟩ := rfl
  have hall : (startingPlan ⟨runName, experiment, some run⟩).all w.service.takes =
      (startingPlan ⟨runName, experiment, none⟩).all t.service.takes := by
    rw [hplan, List.all_cons, hended, htakes, Bool.true_and]
  obtain ⟨hcalls, hstarted, hrefused⟩ := h
  rw [hname] at hstarted
  refine ⟨?_, fun hok => hstarted (hall ▸ hok), fun hfail => ?_⟩
  · rw [hcalls, Service.carriedOut_congr hrefusals, hservice, hplan, Service.carriedOut, if_pos hended,
      Service.noting, List.append_assoc]
    rfl
  · obtain ⟨hreason, hsession⟩ := hrefused (hall ▸ hfail)
    rw [htakes] at hsession
    rw [if_pos hended] at hsession ⊢
    exact ⟨hreason, hsession⟩

/-- A run is started in a session, where one is active as where none is. -/
theorem startRun_starts {session : Session} (h : w.session = some session) :
    Starts w session (startRun.run.run w) := by
  obtain ⟨runName, experiment, _ | run⟩ := session
  · exact startRun_starts_of_inactive h
  · let warned : World := { w with evaluation := { w.evaluation with
      journal := w.evaluation.journal ++
        [⟨.warning, .tracking, "Run already active. Ending previous run."⟩] } }
    have hend := run_endRun_of_active (w := warned) h finished
    have hrun : startRun.run.run w = (endRun finished >>= fun _ => startRun).run.run warned :=
      run_startRun_of_active h
    rw [hrun]
    cases hrefusal : warned.service.refusal? (.endRun finished) with
    | some reason =>
        have htakes : w.service.takes (.endRun finished) = false := Service.takes_of_refusal hrefusal
        rw [hrefusal] at hend
        rw [run_bind_of_error hend]
        constructor <;> simp [startingPlan, htakes, Service.carriedOut, Service.noting, warned, h]
    | none =>
        have htakes : w.service.takes (.endRun finished) = true := Service.takes_of_refusal hrefusal
        rw [hrefusal] at hend
        rw [run_bind_of_ok hend]
        exact .of_ended rfl htakes (startRun_starts_of_inactive rfl)

/-! ## Sessions -/

/-- Whatever the service refuses at any time: a session that could not be opened leaves no run, and one that
was opened starts and ends its runs one at a time through all that is done in it. A start ends the run that is
active and makes the next one the run of the session. A note is one call, costs nothing and leaves the session
alone; the text of the curves is kept even if their areas are refused; and leaving a block of work ends its run
once and swallows nothing. -/
theorem session_lifecycle (evaluation : Evaluation.State) (files : Files.Tree) (service : Service)
    (experiment runName uri : Datum) (occasions : List Occasion) :
    let w : World := ⟨evaluation, files, service, none⟩
    let opening := openSession experiment runName uri
    let opened := (opening.run.run w).2
    let last := later opened occasions
    Opens w experiment runName uri ∧
    ((opening.run.run w).1.isOk = true → last.session.isSome = true ∧
      Balanced (attempts w opening ++ trace opened occasions) (active last)) ∧
    (∀ (v : World) (session : Session), v.session = some session →
      Starts v session (startRun.run.run v)) ∧
    (∀ (op : Operation) (c : Call), op.noted? = some c → ∀ v : World,
      (op.act.run.run v).1 = .ok () ∧
        (op.act.run.run v).2.service.calls = v.service.calls ++ [c] ∧
        (op.act.run.run v).2.session = v.session) ∧
    (∀ (v : World) (file : Datum) (areas : List (String × Float)),
      (Evaluation.summary.run.run v.evaluation).1 = .ok areas →
        ∃ text, (Evaluation.text.run.run v.evaluation).1 = .ok text ∧
          ((logCurves file).run.run v).1 = .ok () ∧
          ((logCurves file).run.run v).2.service.calls =
            v.service.calls ++ [.logMetrics (areaMetrics areas) .missing, .logText text file] ∧
          ((logCurves file).run.run v).2.session = v.session) ∧
    (∀ (v : World) (work : Running Unit), Closes (work.run.run v) ((block work).run.run v)) ∧
    ∀ (name address : Datum) (work : Running Unit),
      within name address work = openSession name .missing address >>= fun _ => block work := by
  intro w opening opened last
  have hopens : Opens w experiment runName uri := openSession_opens rfl experiment runName uri
  refine ⟨hopens, fun hok => ?_, fun v session => startRun_starts, fun op c hc v => op.run_of_noted hc v,
    fun v file areas h => run_logCurves v file h, block_closes, within_eq⟩
  obtain ⟨hsession, hactive, hfollow⟩ := hopens.opened hok
  refine ⟨(isSome_session_later opened occasions).trans hsession, balanced_of_follow ?_⟩
  have htrace := follow_trace opened occasions
  rw [show active opened = true from hactive] at htrace
  rw [follow_append, hfollow, Option.bind_some, htrace]

/-! ### A session with several runs -/

/-- A world without a session. -/
def untouched : World := { files := ⟨"/home", []⟩ }

/-- The opening of a session. -/
def firstSession : Running Datum := openSession (.text "e") .missing (.text "u")

/-- Three more runs are started: the first run is ended for the second; for the third, that is refused; and then
the run is ended, but no other is to be had. -/
def restarts : List Occasion :=
  [⟨{}, [], .startRun⟩, ⟨{}, [(.endRun, "busy")], .startRun⟩, ⟨{}, [(.startRun, "full")], .startRun⟩]

/-- The world in which no other run is to be had. -/
def exhausted : World :=
  let occasion : Occasion := ⟨{}, [(.startRun, "full")], .startRun⟩
  occasion.around (later (firstSession.run.run untouched).2 (restarts.take 2))

theorem session_lifecycle_restarted :
    (later (firstSession.run.run untouched).2 restarts).service.calls.map Call.verb =
        [.setUri, .getExperiment, .createExperiment, .setExperiment, .startRun, .endRun, .startRun, .endRun,
          .endRun, .startRun] ∧
      Balanced (attempts untouched firstSession ++ trace (firstSession.run.run untouched).2 restarts) false ∧
      Starts exhausted ⟨.missing, .text "1", some "run-2"⟩ (startRun.run.run exhausted) := by
  obtain ⟨-, hopened, hstarts, -⟩ :=
    session_lifecycle {} ⟨"/home", []⟩ {} (.text "e") .missing (.text "u") restarts
  exact ⟨rfl, (hopened rfl).2, hstarts exhausted _ rfl⟩

end RankingEval.Tracking
