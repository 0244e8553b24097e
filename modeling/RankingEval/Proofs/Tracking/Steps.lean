/-
# The steps of a session

A session is opened by a plan that ends with the start of a run, and it exists only if the whole plan was
carried out. The run that is active then ends when the service takes the call that ends it, and a new one
starts only after that. What is noted in between is one call for each note, taken or not, and changes nothing
about the run.
-/

import RankingEval.Proofs.Evaluation.Readings
import RankingEval.Proofs.Tracking.Calls

namespace RankingEval.Tracking

open RankingEval.Running

/-! ## Opening -/

/-- The calls that look an experiment up, and make it if there is none. -/
def lookupPlan (s : Service) (experiment : Datum) : List Call :=
  .getExperiment experiment ::
    if (s.experiment? experiment).isNone then [.createExperiment experiment] else []

/-- The calls that choose the service at an address and an experiment. -/
def connectionPlan (s : Service) (address experiment : Datum) : List Call :=
  .setUri address :: (lookupPlan s experiment ++ [.setExperiment experiment])

/-- The calls that open a session at an address. -/
def openingPlan (s : Service) (address experiment runName id : Datum) : List Call :=
  connectionPlan s address experiment ++ [.startRun runName id]

theorem findExperiment_carriesOut (w : World) (name : Datum) :
    CarriesOut w (findExperiment name) (lookupPlan w.service name) := by
  refine (CarriesOut.call w (.getExperiment name)).bind fun _ t hcall => .get ?_
  have hsame : t.service.experiment? name = w.service.experiment? name := by
    rw [eq_of_run_call hcall]
    rfl
  rw [hsame]
  cases w.service.experiment? name with
  | some id => exact (CarriesOut.report t _ _).bind_nil fun _ u _ => .pure u id
  | none =>
      refine (CarriesOut.call t (.createExperiment name)).bind fun _ u _ => ?_
      refine CarriesOut.bind_nil (.of_ok rfl rfl rfl rfl) fun id v _ => ?_
      exact (CarriesOut.report v _ _).bind_nil fun _ v _ => .pure v id

/-- The files change, or they stay as they are. -/
theorem run_changeFiles (w : World) (change : Files.Tree → Except Failure Files.Tree) :
    (changeFiles change).run.run w =
      match change w.files with
      | .error failure => (.error failure, w)
      | .ok files => (.ok (), { w with files }) := by
  change ((liftM (change w.files) : Running Files.Tree) >>= fun files =>
    modify fun w => { w with files }).run.run w = _
  cases change w.files <;> rfl

/-- The address of the service is found without a call; if none is given, there may be no place for the runs,
and nothing is done. -/
theorem run_address (w : World) (uri : Datum) :
    (uri = .missing ∧ ∃ failure, (address uri).run.run w = (.error failure, w)) ∨
      ∃ found files, (address uri).run.run w = (.ok found, { w with files }) := by
  cases uri with
  | missing =>
      have hchange := run_changeFiles w fun t => t.makeDirectory [localDirectory]
      cases hfiles : w.files.makeDirectory [localDirectory] with
      | error failure =>
          rw [hfiles] at hchange
          exact .inl ⟨rfl, failure, run_bind_of_error hchange⟩
      | ok files =>
          rw [hfiles] at hchange
          exact .inr ⟨_, files, run_bind_of_ok hchange⟩
  | _ => exact .inr ⟨_, w.files, rfl⟩

/-- What is done once the address of the service is known. -/
def connectAt (experiment address : Datum) : Running Datum := do
  call (.setUri address)
  report .info .tracking ("MLflow tracking URI: " ++ address.asText)
  let id ←
    try findExperiment experiment
    catch failure =>
      report .error .tracking ("Error setting up experiment: " ++ failure.logged)
      throw failure
  call (.setExperiment experiment)
  return id

theorem connectAt_carriesOut (w : World) (experiment address : Datum) :
    CarriesOut w (connectAt experiment address) (connectionPlan w.service address experiment) := by
  refine (CarriesOut.call w (.setUri address)).bind fun _ t hcall => ?_
  refine (CarriesOut.report t _ _).bind_nil fun _ u hreport => ?_
  change CarriesOut u _ (lookupPlan w.service experiment ++ [.setExperiment experiment])
  have hlookup : lookupPlan w.service experiment = lookupPlan u.service experiment := by
    cases hreport
    rw [eq_of_run_call hcall]
    rfl
  rw [hlookup]
  refine ((findExperiment_carriesOut u experiment).reporting _).bind fun id v _ => ?_
  exact (CarriesOut.call v (.setExperiment experiment)).bind fun _ v _ => .pure v id

/-- Everything that opens a session, up to the session itself. -/
def reach (experiment runName uri : Datum) : Running (Datum × String) := do
  let id ← connect experiment uri
  let run ← requestRun runName id
  return (id, run)

theorem openSession_eq (experiment runName uri : Datum) :
    openSession experiment runName uri = do
      let (id, run) ← reach experiment runName uri
      modify fun w => { w with session := some ⟨runName, id, some run⟩ }
      return id := by
  simp only [openSession, reach, bind_assoc, pure_bind]

theorem requestRun_carriesOut (w : World) (runName id : Datum) :
    CarriesOut w (requestRun runName id) [.startRun runName id] := by
  refine (CarriesOut.call w (.startRun runName id)).bind fun _ t _ => ?_
  refine CarriesOut.bind_nil (.of_ok rfl rfl rfl rfl) fun run u _ => ?_
  exact (CarriesOut.report u _ _).bind_nil fun _ v _ => .pure v run

/-- A session is opened by its plan, unless there is no address. -/
theorem reach_carriesOut (w : World) (experiment runName uri : Datum) :
    (uri = .missing ∧ ∃ failure, (reach experiment runName uri).run.run w = (.error failure, w)) ∨
      ∃ address id, CarriesOut w (reach experiment runName uri)
        (openingPlan w.service address experiment runName id) := by
  rcases run_address w uri with ⟨huri, failure, haddress⟩ | ⟨found, files, haddress⟩
  · exact .inl ⟨huri, failure, run_bind_of_error (run_bind_of_error haddress)⟩
  · have hrun : (connect experiment uri).run.run w =
        (connectAt experiment found).run.run { w with files } := run_bind_of_ok haddress
    have hconnect := (connectAt_carriesOut { w with files } experiment found).of_run_eq hrun rfl rfl
    obtain ⟨id, hid⟩ : ∃ id, ∀ other t, (connect experiment uri).run.run w = (.ok other, t) →
        other = id := by
      rcases (connect experiment uri).run.run w with ⟨_ | id, t⟩
      · exact ⟨.missing, by rintro other t ⟨⟩⟩
      · exact ⟨id, by rintro other t ⟨⟩; rfl⟩
    refine .inr ⟨found, id, hconnect.bind fun other t hother => ?_⟩
    rw [hid other t hother]
    exact (requestRun_carriesOut t runName id).bind fun run u _ => .pure u (id, run)

/-! ## The run -/

variable {w : World} {runName experiment : Datum}

/-- A run is active in the session. -/
def active (w : World) : Bool := (w.session.bind Session.run).isSome

theorem exists_session_of_active (h : active w = true) :
    ∃ runName experiment run, w.session = some ⟨runName, experiment, some run⟩ := by
  rcases w with ⟨evaluation, files, service, _ | ⟨runName, experiment, _ | run⟩⟩
  · cases h
  · cases h
  · exact ⟨runName, experiment, run, rfl⟩

/-- Without an active run there is nothing to end. -/
theorem run_endRun_of_inactive (h : active w = false) (status : Datum) :
    (endRun status).run.run w = (.ok (), w) := by
  rcases w with ⟨evaluation, files, service, _ | ⟨runName, experiment, _ | run⟩⟩
  · rfl
  · rfl
  · cases h

/-- An active run ends if the service takes the call, and it stays active otherwise. -/
theorem run_endRun_of_active {run : String} (h : w.session = some ⟨runName, experiment, some run⟩)
    (status : Datum) :
    (endRun status).run.run w =
      match w.service.refusal? (.endRun status) with
      | some reason =>
        (.error (.trackingRefused reason), { w with service := w.service.noting (.endRun status) })
      | none =>
        (.ok (), { w with
          service := w.service.noting (.endRun status)
          evaluation := { w.evaluation with
            journal := w.evaluation.journal ++ [⟨.info, .tracking,
              "Ended MLflow run: " ++ run ++ " with status " ++ status.asText⟩] }
          session := some ⟨runName, experiment, none⟩ }) := by
  have hcall := run_call w (.endRun status)
  have hact : (endRun status).run.run w = (do
      call (.endRun status)
      report .info .tracking ("Ended MLflow run: " ++ run ++ " with status " ++ status.asText)
      setRun none : Running Unit).run.run w := by
    obtain ⟨evaluation, files, service, session⟩ := w
    cases h
    rfl
  rw [hact]
  cases hrefusal : w.service.refusal? (.endRun status) with
  | some reason =>
      rw [hrefusal] at hcall
      exact run_bind_of_error hcall
  | none =>
      rw [hrefusal] at hcall
      refine (run_bind_of_ok hcall).trans ?_
      obtain ⟨evaluation, files, service, session⟩ := w
      cases h
      rfl

theorem run_requestRun (w : World) (runName id : Datum) :
    (requestRun runName id).run.run w =
      match w.service.refusal? (.startRun runName id) with
      | some reason =>
        (.error (.trackingRefused reason),
          { w with service := w.service.noting (.startRun runName id) })
      | none =>
        let (service, run) := (w.service.noting (.startRun runName id)).withRun
        (.ok run, { w with
          service
          evaluation := { w.evaluation with
            journal := w.evaluation.journal ++ [⟨.info, .tracking, "Started MLflow run: " ++ run⟩] } }) := by
  have hcall := run_call w (.startRun runName id)
  cases hrefusal : w.service.refusal? (.startRun runName id) with
  | some reason =>
      rw [hrefusal] at hcall
      exact run_bind_of_error hcall
  | none =>
      rw [hrefusal] at hcall
      exact run_bind_of_ok hcall

/-- What starts a run in a session without one. -/
def begin (runName experiment : Datum) : Running (Option String) := do
  let run ← requestRun runName experiment
  setRun (some run)
  return some run

theorem run_startRun_eq_begin (h : w.session = some ⟨runName, experiment, none⟩) :
    startRun.run.run w = (begin runName experiment).run.run w := by
  obtain ⟨evaluation, files, service, session⟩ := w
  cases h
  rfl

/-- Where no run is active, one is started if the service takes the call. -/
theorem run_startRun_of_inactive (h : w.session = some ⟨runName, experiment, none⟩) :
    startRun.run.run w =
      match w.service.refusal? (.startRun runName experiment) with
      | some reason =>
        (.error (.trackingRefused reason),
          { w with service := w.service.noting (.startRun runName experiment) })
      | none =>
        let (service, run) := (w.service.noting (.startRun runName experiment)).withRun
        (.ok (some run), { w with
          service
          evaluation := { w.evaluation with
            journal := w.evaluation.journal ++ [⟨.info, .tracking, "Started MLflow run: " ++ run⟩] }
          session := some ⟨runName, experiment, some run⟩ }) := by
  have hrequest := run_requestRun w runName experiment
  rw [run_startRun_eq_begin h]
  cases hrefusal : w.service.refusal? (.startRun runName experiment) with
  | some reason =>
      rw [hrefusal] at hrequest
      exact run_bind_of_error hrequest
  | none =>
      rw [hrefusal] at hrequest
      refine (run_bind_of_ok hrequest).trans ?_
      obtain ⟨evaluation, files, service, session⟩ := w
      cases h
      rfl

/-- To start a run where one is active is to end that one first. -/
theorem run_startRun_of_active {run : String} (h : w.session = some ⟨runName, experiment, some run⟩) :
    startRun.run.run w = (do
      report .warning .tracking "Run already active. Ending previous run."
      endRun finished
      startRun : Running (Option String)).run.run w := by
  let warned : World := { w with evaluation := { w.evaluation with
    journal := w.evaluation.journal ++
      [⟨.warning, .tracking, "Run already active. Ending previous run."⟩] } }
  have hact : startRun.run.run w = (endRun finished >>= fun _ =>
      begin runName experiment).run.run warned := by
    obtain ⟨evaluation, files, service, session⟩ := w
    cases h
    rfl
  have hend := run_endRun_of_active (w := warned) h finished
  rw [hact]
  change _ = (endRun finished >>= fun _ => startRun).run.run warned
  cases hrefusal : warned.service.refusal? (.endRun finished) with
  | some reason =>
      rw [hrefusal] at hend
      rw [run_bind_of_error hend, run_bind_of_error hend]
  | none =>
      rw [hrefusal] at hend
      rw [run_bind_of_ok hend, run_bind_of_ok hend, run_startRun_eq_begin rfl]

end RankingEval.Tracking
