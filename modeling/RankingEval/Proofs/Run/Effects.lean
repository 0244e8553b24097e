/-
# What a run does to files and service

Until the curves are there, a run leaves files and service alone, and it does so where there are no curves. Then
the text of the curves is written, if a path is given, before anything is asked of the service; and the service is
handed the same text, whatever it refuses, in a run that is ended once.
-/

import Mathlib
import RankingEval.Proofs.Run.Stages
import RankingEval.Proofs.Tracking.Frame

namespace RankingEval.Run

open RankingEval.Running RankingEval.Tracking

/-! ## The service -/

/-- A call that belongs to the opening of a session. -/
def opens (c : Call) : Bool :=
  [Verb.setUri, .getExperiment, .createExperiment, .setExperiment, .startRun].contains c.verb

theorem opens_of_mem_openingPlan {s : Service} {found experiment runName id : Datum} {c : Call}
    (h : c ∈ openingPlan s found experiment runName id) : opens c = true := by
  rw [openingPlan, connectionPlan, lookupPlan] at h
  split_ifs at h <;> simp at h <;> rcases h with rfl | rfl | rfl | rfl | rfl <;> rfl

/-- A computation makes some calls that belong to the opening of a session. If it succeeds, a run is active. -/
structure OpensBy (w : World) (act : Running Datum) (opening : List Call) : Prop where
  opens : ∀ c ∈ opening, opens c = true
  calls : (act.run.run w).2.service.calls = w.service.calls ++ opening
  refusals : (act.run.run w).2.service.refusals = w.service.refusals
  active : (act.run.run w).1.isOk = true → active (act.run.run w).2 = true

theorem exists_opensBy (w : World) (experiment runName uri : Datum) :
    ∃ opening, OpensBy w (openSession experiment runName uri) opening := by
  rw [openSession_eq]
  rcases reach_carriesOut w experiment runName uri with ⟨-, failure, hrun⟩ | ⟨found, id, hplan⟩
  · refine ⟨[], List.forall_mem_nil _, ?_, ?_, ?_⟩ <;> rw [run_bind_of_error hrun]
    · rw [List.append_nil]
    · rintro ⟨⟩
  · obtain ⟨hcalls, -, hrefusals, -⟩ := hplan
    have hopens := fun c hc => opens_of_mem_openingPlan (c := c) ((w.service.carriedOut_isPrefix
      (openingPlan w.service found experiment runName id)).subset hc)
    rcases hrun : (reach experiment runName uri).run.run w with ⟨failure | ⟨other, run⟩, t⟩
    · rw [hrun] at hcalls hrefusals
      refine ⟨_, hopens, ?_, ?_, ?_⟩ <;> rw [run_bind_of_error hrun]
      · exact hcalls
      · exact hrefusals
      · rintro ⟨⟩
    · rw [hrun] at hcalls hrefusals
      refine ⟨_, hopens, ?_, ?_, ?_⟩ <;> rw [run_bind_of_ok hrun]
      · exact hcalls
      · exact hrefusals
      · exact fun _ => rfl

/-- The same results have the same text. -/
theorem text_of_agrees {s t : Evaluation.State} (h : Evaluation.Agrees s t) :
    (Evaluation.text.run.run t).1 = (Evaluation.text.run.run s).1 := by
  rw [(Evaluation.reads_text s t h).1, (Evaluation.reads_text s s (.refl s)).1]

/-- What is noted in a run: parameters, tags, and the curves. -/
def describe (params tags : Fields) : Running Unit := do
  logParams params
  setTags tags
  logCurves curvesFile

theorem preserves_describe (params tags : Fields) : Preserves (describe params tags) :=
  (Preserves.note _ _ _).bind fun _ => (Preserves.note _ _ _).bind fun _ => .logCurves _

/-- Whatever the service refuses, everything is noted once. -/
theorem run_describe {w : World} {out : String} (params tags : Fields)
    (hout : (Evaluation.text.run.run w.evaluation).1 = .ok out) :
    ∃ metrics, ((describe params tags).run.run w).1 = .ok () ∧
      ((describe params tags).run.run w).2.service.calls = w.service.calls ++
        [.logParams params, .setTags tags, .logMetrics metrics .missing, .logText out curvesFile] ∧
      ((describe params tags).run.run w).2.service.refusals = w.service.refusals ∧
      ((describe params tags).run.run w).2.session = w.session := by
  obtain ⟨t, hparams, ht, htsession, htkept⟩ := exists_run_note w (.logParams params) "logging parameters"
    ("Logged " ++ toString params.length ++ " parameters")
  obtain ⟨u, htags, hu, husession, hukept⟩ := exists_run_note t (.setTags tags) "setting tags"
    ("Set " ++ toString tags.length ++ " tags")
  have hagrees := hukept _ (htkept _ (.refl _))
  have htext := (text_of_agrees hagrees).trans hout
  have hsummary : (Evaluation.summary.run.run u.evaluation).1.isOk = true := by
    rw [← Evaluation.isOk_text_eq_isOk_summary, htext]
    rfl
  obtain ⟨areas, hareas⟩ := exists_of_isOk hsummary
  obtain ⟨text, hsame, hok, hcalls, hsession⟩ := run_logCurves u curvesFile hareas
  obtain rfl : out = text := by
    rw [htext] at hsame
    exact Except.ok.inj hsame
  have hrefusals := (logCurves_keepsAccount u curvesFile).refusals
  have hrun : (describe params tags).run.run w = (logCurves curvesFile).run.run u :=
    (run_bind_of_ok hparams).trans (run_bind_of_ok htags)
  rw [hrun]
  refine ⟨areaMetrics areas, hok, ?_, ?_, hsession.trans (husession.trans htsession)⟩
  · rw [hcalls, hu, Service.noting, ht, Service.noting]
    simp
  · rw [hrefusals, hu, Service.noting, ht, Service.noting]

/-! ## The session of a run -/

/-- The parameters that are noted. -/
def Prepared.params (p : Prepared) : Fields :=
  [("positive_class_name", .text p.positives), ("data_path", .text p.schema.dataPath.toString),
    ("n_rankings", .int p.rankings.length)]

/-- The tags of the run. -/
def Prepared.tags (p : Prepared) : Fields := [("positive_class_name", .text p.positives)]

/-- The session is opened at the address in the configuration, or else at the one that is given. -/
def Prepared.opening (p : Prepared) (address : Datum) : Running Datum :=
  openSession ((p.config.get? "experiment_name").getD defaultExperiment) .missing
    (if (p.config.get "mlflow_tracking_uri").isSet then p.config.get "mlflow_tracking_uri" else address)

theorem track_eq (p : Prepared) (address : Datum) :
    track p.config address p.subject =
      p.opening address >>= fun _ => block (describe p.params p.tags) := rfl

/-- What comes of the session in which some text is handed over. -/
structure Tracks (p : Prepared) (address : Datum) (out : String) (v : World)
    (last : Except Failure Unit × World) : Prop where
  /-- A session that cannot be opened is the failure of the run, and nothing is noted. -/
  closed : ∀ failure t, (p.opening address).run.run v = (.error failure, t) →
    last = (.error failure, t) ∧
      ∃ opening, (∀ c ∈ opening, opens c = true) ∧ last.2.service.calls = v.service.calls ++ opening
  /-- In a session that is opened everything is noted, with the text among it, and the run is ended once, as one
  that ended well. That may be refused, and nothing else is a failure. -/
  opened : ∀ id t, (p.opening address).run.run v = (.ok id, t) →
    (∃ opening metrics, (∀ c ∈ opening, opens c = true) ∧
      last.2.service.calls = v.service.calls ++ (opening ++
        [.logParams p.params, .setTags p.tags, .logMetrics metrics .missing, .logText out curvesFile,
          .endRun finished])) ∧
    (v.service.takes (.endRun finished) = true → last.1 = .ok ())

theorem preserves_track (p : Prepared) (address : Datum) : Preserves (track p.config address p.subject) := by
  rw [track_eq]
  exact (Preserves.openSession _ _ _).bind fun _ => (preserves_describe _ _).block

theorem track_tracks {v : World} {out : String} (p : Prepared) (address : Datum)
    (hout : (Evaluation.text.run.run v.evaluation).1 = .ok out) :
    Tracks p address out v ((track p.config address p.subject).run.run v) := by
  rw [track_eq]
  obtain ⟨opening, hopens, hcalls, hrefusals, hactive⟩ :
      ∃ opening, OpensBy v (p.opening address) opening := exists_opensBy v _ _ _
  have hkept : Preserves (p.opening address) := .openSession _ _ _
  constructor
  · intro failure t hrun
    rw [run_bind_of_error hrun]
    rw [hrun] at hcalls
    exact ⟨rfl, opening, hopens, hcalls⟩
  · intro id t hrun
    have hresults := (hkept v).results
    rw [hrun] at hcalls hrefusals hactive hresults
    rw [run_bind_of_ok hrun]
    have htext := (text_of_agrees hresults).trans hout
    obtain ⟨metrics, hok, hnoted, hsame, hsession⟩ := run_describe p.params p.tags htext
    have hcloses := block_closes t (describe p.params p.tags)
    have hstill : active ((describe p.params p.tags).run.run t).2 = true := by
      rw [active, hsession]
      exact hactive rfl
    have hstatus : closingStatus ((describe p.params p.tags).run.run t) = finished := by
      rw [closingStatus, hok]
      rfl
    have hended := hcloses.calls
    rw [hstatus, if_pos hstill, hnoted, hcalls] at hended
    refine ⟨⟨opening, metrics, hopens, ?_⟩, fun htakes => ?_⟩
    · rw [hended]
      simp
    · refine (hcloses.outcome (.inr ?_)).trans hok
      rwa [hstatus, Service.takes_congr (hsame.trans hrefusals)]

/-! ## Whole runs -/

/-- Files and service are as they were. -/
structure LeavesAlone (files : Files.Tree) (service : Service) (outcome : Except Failure Unit)
    (last : Except Failure Unit × World) : Prop where
  outcome : last.1 = outcome
  files : last.2.files = files
  service : last.2.service = service

/-- The files with the text of the curves, if a path is given for it. -/
def savedIfSet (files : Files.Tree) (path : Datum) (out : String) : Except Failure Files.Tree :=
  if path.isSet then saved files path out else .ok files

/-- What a run does with some text of curves. -/
structure Concludes (p : Prepared) (output address : Datum) (files : Files.Tree) (service : Service)
    (out : String) (last : Except Failure Unit × World) : Prop where
  /-- The results are there in the end, and have this text. -/
  text : (Evaluation.text.run.run last.2.evaluation).1 = .ok out
  /-- A path that is given goes before the one in the configuration. -/
  given : output.isSet = true → outputPath p.config output = .ok output
  /-- Where the configuration cannot be read for a path, nothing is done. -/
  unread : ∀ failure, outputPath p.config output = .error failure →
    LeavesAlone files service (.error failure) last
  /-- Where the text cannot be saved, the service is not asked. -/
  unsaved : ∀ path failure, outputPath p.config output = .ok path →
    savedIfSet files path out = .error failure → last.1 = .error failure ∧ last.2.service = service
  /-- Where it is saved, it is saved before anything is asked of the service, and it stays there. Only then the
  service is asked, if it is to be asked at all. -/
  saved : ∀ path files', outputPath p.config output = .ok path → savedIfSet files path out = .ok files' →
    ∃ v : World, v.files = files' ∧ v.service = service ∧
      (path.isSet = true → Holds v.files path out ∧ Holds last.2.files path out) ∧
      ((p.config.get "use_mlflow").isSet = false → last = (.ok (), v)) ∧
      ((p.config.get "use_mlflow").isSet = true →
        last = (track p.config address p.subject).run.run v ∧ Tracks p address out v last)

/-- A run that succeeds with a path and a service has saved the text at that path, and has handed it over in a run
that it ended once. -/
theorem Concludes.saved_and_noted {p : Prepared} {output address : Datum} {files : Files.Tree}
    {service : Service} {out : String} {last : Except Failure Unit × World}
    (h : Concludes p output address files service out last) (hset : output.isSet = true)
    (htracked : (p.config.get "use_mlflow").isSet = true) (hok : last.1 = .ok ()) :
    Holds last.2.files output out ∧ ∃ opening metrics, (∀ c ∈ opening, opens c = true) ∧
      last.2.service.calls = service.calls ++ (opening ++ [.logParams p.params, .setTags p.tags,
        .logMetrics metrics .missing, .logText out curvesFile, .endRun finished]) := by
  have hpath := h.given hset
  -- the run succeeds, so neither the file nor the session has failed
  cases hsaved : savedIfSet files output out with
  | error failure =>
      have hfailed := (h.unsaved _ failure hpath hsaved).1
      cases hok.symm.trans hfailed
  | ok files' =>
      obtain ⟨v, -, hservice, hholds, -, htracks⟩ := h.saved _ files' hpath hsaved
      obtain ⟨-, hclosed, hopened⟩ := htracks htracked
      rcases hrun : (p.opening address).run.run v with ⟨failure | id, t⟩
      · have hfailed := congrArg Prod.fst (hclosed failure t hrun).1
        cases hok.symm.trans hfailed
      · have hcalls := (hopened id t hrun).1
        rw [hservice] at hcalls
        exact ⟨(hholds hset).2, hcalls⟩

/-- The curves are written to the path that the configuration or the caller gives. -/
theorem run_savedIfSet {w : World} {out : String} (path : Datum)
    (hout : (Evaluation.text.run.run w.evaluation).1 = .ok out) :
    ∃ t, (if path.isSet then writeCurves path else pure () : Running Unit).run.run w =
        ((savedIfSet w.files path out).map fun _ => (), t) ∧
      (∀ files, savedIfSet w.files path out = .ok files → t.files = files) ∧ t.service = w.service ∧
        t.session = w.session ∧ Evaluation.Agrees w.evaluation t.evaluation := by
  rw [savedIfSet]
  split_ifs with hset
  · exact run_writeCurves path hout
  · exact ⟨w, rfl, by rintro _ ⟨⟩; rfl, rfl, rfl, .refl _⟩

/-- What follows the file. -/
def trackIfSet (p : Prepared) (address : Datum) : Running Unit :=
  if (p.config.get "use_mlflow").isSet then track p.config address p.subject else pure ()

/-- What follows the output path. -/
def concludeAt (p : Prepared) (address path : Datum) : Running Unit :=
  (if path.isSet then writeCurves path else pure ()) >>= fun _ => trackIfSet p address

theorem run_conclude {w : World} (p : Prepared) (output address : Datum)
    (hsome : w.evaluation.store.size ≠ 0) :
    (conclude p.config output address p.subject).run.run w =
      ((liftM (outputPath p.config output) : Running Datum) >>= concludeAt p address).run.run w := by
  have hlater : concludeAt p address = fun path => (do
      if path.isSet then writeCurves path
      if (p.config.get "use_mlflow").isSet then track p.config address p.subject) := by
    funext path
    rw [concludeAt, trackIfSet]
    split_ifs <;> rfl
  rw [hlater]
  change (if w.evaluation.store.size = 0 then _ else _ : Running Unit).run.run w = _
  rw [if_neg hsome]

theorem outputPath_of_isSet (config : Section) {output : Datum} (h : output.isSet = true) :
    outputPath config output = .ok output := by
  rw [outputPath, if_pos h]
  rfl

/-- What follows the file leaves it as it is. -/
theorem trackIfSet_concludes {p : Prepared} {output address path : Datum} {files : Files.Tree} {v : World}
    {out : String} (hpath : outputPath p.config output = .ok path)
    (hsaved : savedIfSet files path out = .ok v.files)
    (hout : (Evaluation.text.run.run v.evaluation).1 = .ok out) :
    Concludes p output address files v.service out ((trackIfSet p address).run.run v) := by
  have hretains : Retains v ((trackIfSet p address).run.run v).2 := by
    rw [trackIfSet]
    split_ifs
    · exact preserves_track p address v
    · exact .refl v
  refine ⟨(text_of_agrees hretains.results).trans hout, outputPath_of_isSet p.config, ?_, ?_, ?_⟩ <;>
    rw [hpath]
  · rintro _ ⟨⟩
  · rintro _ failure ⟨⟩ hfailure
    cases hsaved.symm.trans hfailure
  · rintro _ other ⟨⟩ hother
    obtain rfl : v.files = other := Except.ok.inj (hsaved.symm.trans hother)
    refine ⟨v, rfl, rfl, fun hset => ?_, fun hunset => ?_, fun hset => ?_⟩
    · rw [savedIfSet, if_pos hset] at hsaved
      have hholds := holds_of_saved hsaved
      refine ⟨hholds, ?_⟩
      obtain ⟨place, hplace, hfind⟩ := hholds
      exact ⟨place, hplace, hretains.files _ _ hfind⟩
    · rw [trackIfSet, hunset]
      rfl
    · rw [trackIfSet, if_pos hset]
      exact ⟨rfl, track_tracks p address hout⟩

theorem conclude_concludes {w : World} {out : String} (p : Prepared) (output address : Datum)
    (hout : (Evaluation.text.run.run w.evaluation).1 = .ok out) (hsome : w.evaluation.store.size ≠ 0) :
    Concludes p output address w.files w.service out
      ((conclude p.config output address p.subject).run.run w) := by
  rw [run_conclude p output address hsome]
  cases hpath : outputPath p.config output with
  | error failure =>
      refine ⟨hout, outputPath_of_isSet p.config, ?_, ?_, ?_⟩ <;> rw [hpath]
      · rintro _ ⟨⟩
        exact ⟨rfl, rfl, rfl⟩
      · rintro path _ ⟨⟩
      · rintro path _ ⟨⟩
  | ok path =>
      rw [run_bind_of_ok (run_lift_of_ok rfl), concludeAt]
      obtain ⟨v, hrun, hfiles, hservice, -, hresults⟩ := run_savedIfSet path hout
      have htext := (text_of_agrees hresults).trans hout
      cases hsaved : savedIfSet w.files path out with
      | error failure =>
          rw [hsaved] at hrun
          rw [run_bind_of_error hrun]
          refine ⟨htext, outputPath_of_isSet p.config, ?_, ?_, ?_⟩ <;> rw [hpath]
          · rintro _ ⟨⟩
          · rintro _ _ ⟨⟩ hfailure
            rw [hsaved] at hfailure
            cases hfailure
            exact ⟨rfl, hservice⟩
          · rintro _ files' ⟨⟩ hfiles'
            cases hsaved.symm.trans hfiles'
      | ok files' =>
          rw [hsaved] at hrun
          rw [run_bind_of_ok hrun, ← hservice]
          obtain rfl := hfiles files' hsaved
          exact trackIfSet_concludes hpath hsaved htext

/-! ### From the evaluation on -/

section Evaluated

variable (p : Prepared) (output address : Datum) (files : Files.Tree) (service : Service)

/-- What becomes of a run from its evaluation on. -/
def Prepared.outcome : Except Failure Unit × World :=
  ((liftM p.evaluated.1 : Running Unit) >>= fun _ => conclude p.config output address p.subject).run.run
    { evaluation := p.evaluated.2, files, service }

theorem outcome_of_failure {failure : Failure} (h : p.evaluated.1 = .error failure) :
    LeavesAlone files service (.error failure) (p.outcome output address files service) := by
  rw [Prepared.outcome, h]
  exact ⟨rfl, rfl, rfl⟩

theorem outcome_of_empty (h : p.evaluated.1 = .ok ()) (hstore : p.evaluated.2.store = .empty) :
    LeavesAlone files service (.ok ()) (p.outcome output address files service) := by
  have hnothing : p.outcome output address files service =
      (report .warning .run "No precision-recall curves were produced").run.run
        { evaluation := p.evaluated.2, files, service } := by
    rw [Prepared.outcome, h]
    change (if p.evaluated.2.store.size = 0 then _ else _ : Running Unit).run.run _ = _
    rw [if_pos (by rw [hstore]; rfl)]
  rw [hnothing]
  exact ⟨rfl, rfl, rfl⟩

theorem outcome_of_results {out : String} (h : p.evaluated.1 = .ok ())
    (hout : (Evaluation.text.run.run p.evaluated.2).1 = .ok out) (hsome : p.evaluated.2.store.entries ≠ []) :
    Concludes p output address files service out (p.outcome output address files service) := by
  have hconclude : p.outcome output address files service =
      (conclude p.config output address p.subject).run.run
        { evaluation := p.evaluated.2, files, service } := by
    rw [Prepared.outcome, h]
    rfl
  have hsize : p.evaluated.2.store.size ≠ 0 := fun hzero => hsome (List.length_eq_zero_iff.mp hzero)
  rw [hconclude]
  exact conclude_concludes (w := ⟨p.evaluated.2, files, service, none⟩) p output address hout hsize

end Evaluated

theorem evaluated_of_unmatched {p : Prepared}
    (h : p.labels.matchingPattern {} (.text p.positives) = .ok []) :
    p.evaluated.1 = .ok () ∧ p.evaluated.2.store = .empty := by
  obtain ⟨journal, hrun⟩ := Evaluation.run_evaluate_of_unmatched h p.rankings { journal := p.loaded ++
    [⟨.info, .run, "Evaluating " ++ toString p.rankings.length ++ " rankings"⟩] }
  rw [Prepared.evaluated, hrun]
  exact ⟨rfl, rfl⟩

theorem run_evaluated {p : Prepared} (h : p.evaluated.1 = .ok ()) :
    (Evaluation.evaluate p.positives p.labels p.rankings).run.run
      { journal := p.loaded ++
        [⟨.info, .run, "Evaluating " ++ toString p.rankings.length ++ " rankings"⟩] } =
      (.ok (), p.evaluated.2) :=
  Prod.ext h rfl

theorem evaluated_of_none {p : Prepared} (h : p.evaluated.1 = .ok ()) (hnone : p.rankings = []) :
    p.evaluated.2.store = .empty := by
  have hrun := run_evaluated h
  rw [hnone] at hrun
  exact Evaluation.store_of_run_evaluate_nil hrun

/-- An evaluation that succeeds has results with a text, if a label matches and there is a ranking. -/
theorem exists_text_of_evaluated {p : Prepared} (h : p.evaluated.1 = .ok ())
    (hmatches : p.labels.matchingPattern {} (.text p.positives) ≠ .ok []) (hsome : p.rankings ≠ []) :
    p.evaluated.2.store.entries ≠ [] ∧ ∃ out, (Evaluation.text.run.run p.evaluated.2).1 = .ok out := by
  have hnothing (journal : Journal) : Evaluation.Readable { journal } :=
    ⟨List.forall_mem_nil _, List.forall_mem_nil _⟩
  obtain ⟨hreadable, hentries⟩ :=
    Evaluation.readable_of_run_evaluate (hnothing _) (run_evaluated h) hmatches hsome
  obtain ⟨out, -, hout, -⟩ := hreadable.exists_text
  exact ⟨hentries, out, hout⟩

/-! ### From the configuration on -/

/-- Whatever the service refuses: where the configuration, the table, its rankings or their evaluation fail, and
where no label matches or there are no rankings, a run leaves files and service alone. Otherwise it has results
with a text, which it writes to the file that is asked for before it asks the service for anything, and which it
hands over in a session that is ended once. -/
theorem run_effects (config output address : Datum) (files : Files.Tree) (service : Service) :
    let last := (fromConfig config output address).run.run { files, service }
    (∀ failure, prepare config files = .error failure →
      LeavesAlone files service (.error failure) last) ∧
    ∀ p, prepare config files = .ok p →
      (∀ failure, p.evaluated.1 = .error failure → LeavesAlone files service (.error failure) last) ∧
      (p.labels.matchingPattern {} (.text p.positives) = .ok [] →
        LeavesAlone files service (.ok ()) last) ∧
      (p.evaluated.1 = .ok () → p.rankings = [] → LeavesAlone files service (.ok ()) last) ∧
      (p.evaluated.1 = .ok () → p.labels.matchingPattern {} (.text p.positives) ≠ .ok [] →
        p.rankings ≠ [] →
          ∃ out, (Evaluation.text.run.run p.evaluated.2).1 = .ok out ∧
            Concludes p output address files service out last) := by
  intro last
  rcases staged_fromConfig config output address files service with
    ⟨failure, evaluation, hprepare, hrun⟩ | ⟨p, hprepare, hrun⟩
  · have hlast : last = (.error failure, { evaluation, files, service }) := hrun
    rw [hprepare, hlast]
    refine ⟨?_, by rintro p ⟨⟩⟩
    rintro _ ⟨⟩
    exact ⟨rfl, rfl, rfl⟩
  · have hlast : last = p.outcome output address files service := hrun
    rw [hprepare, hlast]
    refine ⟨by rintro failure ⟨⟩, ?_⟩
    rintro _ ⟨⟩
    refine ⟨fun failure => outcome_of_failure p output address files service, fun hunmatched => ?_,
      fun hok hnone => ?_, fun hok hmatches hsome => ?_⟩
    · obtain ⟨hok, hstore⟩ := evaluated_of_unmatched hunmatched
      exact outcome_of_empty p output address files service hok hstore
    · exact outcome_of_empty p output address files service hok (evaluated_of_none hok hnone)
    · obtain ⟨hentries, out, hout⟩ := exists_text_of_evaluated hok hmatches hsome
      exact ⟨out, hout, outcome_of_results p output address files service hok hout hentries⟩

/-! ### A run with curves -/

/-- The label of the only row matches, and the row has a score; the curves are to be saved and tracked. -/
def trackedConfig : Datum := .map [
  (.text "data", .map [(.text "data_path", .text "s.csv"), (.text "score_columns", .list [.text "s"])]),
  (.text "evaluation", .map [(.text "positive_class_name", .text "outlier")]),
  (.text "output", .map [(.text "path", .text "other.txt")]),
  (.text "mlflow_tracking_uri", .text "u"), (.text "use_mlflow", .bool true)]

def trackedFiles : Files.Tree := ⟨"/home", [(["s.csv"], .text "id,label,s\na,outlier,1\n")]⟩

/-- The text of the only curve, which has one point. -/
def trackedText : String := "# s\n# PR-AUC: 0.0\n1.0 1.0\n"

/-- The service takes neither metrics nor tags. -/
def busyService : Service := { refusals := [(.logMetrics, "busy"), (.setTags, "full")] }

/-- The text is saved where the caller wants it, and it is handed over in a run that is ended once, although the
service refuses what is noted before. -/
theorem run_effects_noted_and_saved :
    ∃ p, prepare trackedConfig trackedFiles = .ok p ∧
      let last := (fromConfig trackedConfig (.text "out/curves.txt") .missing).run.run
        { files := trackedFiles, service := busyService }
      last.1 = .ok () ∧ Holds last.2.files (.text "out/curves.txt") trackedText ∧
        ∃ opening metrics, (∀ c ∈ opening, opens c = true) ∧
          last.2.service.calls = opening ++ [.logParams p.params, .setTags p.tags,
            .logMetrics metrics .missing, .logText trackedText curvesFile, .endRun finished] := by
  have hchecks : (prepare trackedConfig trackedFiles).toOption.any (fun p =>
      (p.config.get "use_mlflow").isSet && p.evaluated.1.isOk && !p.rankings.isEmpty &&
        (Evaluation.text.run.run p.evaluated.2).1.toOption.any (· == trackedText) &&
          (p.labels.matchingPattern {} (.text p.positives)).toOption.any fun ids => !ids.isEmpty) = true := by
    decide +kernel
  have hlast : ((fromConfig trackedConfig (.text "out/curves.txt") .missing).run.run
      { files := trackedFiles, service := busyService }).1.isOk = true := by decide +kernel
  obtain ⟨p, hprepare, hcheck⟩ := exists_of_any hchecks
  simp only [Bool.and_eq_true, Bool.not_eq_true', List.isEmpty_eq_false_iff] at hcheck
  obtain ⟨⟨⟨⟨htracked, hok⟩, hsome⟩, htext⟩, hmatched⟩ := hcheck
  obtain ⟨⟨⟩, hevaluated⟩ := exists_of_isOk hok
  have hmatches := ne_ok_nil_of_any hmatched
  obtain ⟨out, hout, hconcludes⟩ := ((run_effects trackedConfig (.text "out/curves.txt") .missing
    trackedFiles busyService).2 p hprepare).2.2.2 hevaluated hmatches hsome
  obtain rfl : out = trackedText := by
    rw [hout] at htext
    exact beq_iff_eq.mp htext
  obtain ⟨⟨⟩, hlast⟩ := exists_of_isOk hlast
  exact ⟨p, hprepare, hlast, hconcludes.saved_and_noted rfl htracked hlast⟩

/-! ### A run without curves -/

/-- The label of the only row matches, and there is no column to rank the row by. -/
def unrankedConfig : Datum := .map [
  (.text "data", .map [(.text "data_path", .text "s.csv")]),
  (.text "evaluation", .map [(.text "positive_class_name", .text "outlier")])]

def unrankedFiles : Files.Tree := ⟨"/home", [(["s.csv"], .text "id,label\na,outlier\n")]⟩

theorem text_of_empty {s : Evaluation.State} (h : s.store = .empty) :
    (Evaluation.text.run.run s).1 = .ok "" := by
  rw [(Evaluation.reads_text s s (.refl s)).1, h]
  rfl

/-- Where there are no rankings, there are no curves, and nothing is saved although a label matches. -/
theorem not_every_run_saves :
    ¬ ∀ (config output address : Datum) (files files' : Files.Tree) (service : Service) (p : Prepared)
      (path : Datum) (out : String),
      prepare config files = .ok p → p.evaluated.1 = .ok () →
        p.labels.matchingPattern {} (.text p.positives) ≠ .ok [] →
          (Evaluation.text.run.run p.evaluated.2).1 = .ok out →
            outputPath p.config output = .ok path → path.isSet = true → saved files path out = .ok files' →
              Holds ((fromConfig config output address).run.run { files, service }).2.files path out := by
  intro h
  have hsaves : (saved unrankedFiles (.text "curves.txt") "").isOk = true := by decide +kernel
  have hchecks : (prepare unrankedConfig unrankedFiles).toOption.any (fun p =>
      p.evaluated.1.isOk && p.rankings.isEmpty &&
        (p.labels.matchingPattern {} (.text p.positives)).toOption.any fun ids => !ids.isEmpty) = true := by
    decide +kernel
  have hmissing : ((fromConfig unrankedConfig (.text "curves.txt") .missing).run.run
      { files := unrankedFiles }).2.files.reaches (.ofString "curves.txt") = false := by decide +kernel
  obtain ⟨files', hsaved⟩ := exists_of_isOk hsaves
  obtain ⟨p, hprepare, hcheck⟩ := exists_of_any hchecks
  simp only [Bool.and_eq_true, List.isEmpty_iff] at hcheck
  obtain ⟨⟨hok, hnone⟩, hsome⟩ := hcheck
  obtain ⟨⟨⟩, hevaluated⟩ := exists_of_isOk hok
  have hmatches := ne_ok_nil_of_any hsome
  obtain ⟨place, hplace, hfind⟩ := h unrankedConfig (.text "curves.txt") .missing unrankedFiles
    files' {} p (.text "curves.txt") "" hprepare hevaluated hmatches
    (text_of_empty (evaluated_of_none hevaluated hnone)) rfl rfl hsaved
  cases hplace
  rw [Files.Tree.reaches, hfind] at hmissing
  cases hmissing

end RankingEval.Run
