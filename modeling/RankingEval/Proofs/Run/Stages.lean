/-
# The stages of a run

A run comes to its curves in stages, and each of them may fail: the configuration is read, the table is loaded,
its rankings are made, and the rankings are evaluated. Nothing but the evaluation changes until then. The text
of the curves is written after that, and before the service is asked for anything.
-/

import Mathlib
import RankingEval.Run
import RankingEval.Proofs.Evaluation.Results
import RankingEval.Proofs.Tracking.Frame

namespace RankingEval.Run

open RankingEval.Running RankingEval.Tracking

/-! ## The stages before the evaluation -/

/-- What the configuration and the table come to. -/
structure Prepared where
  config : Section
  schema : Schema
  positives : String
  loaded : Journal
  labels : Labels
  rankings : List Ranking

/-- The configuration is read, the table is loaded, and its rankings are made. -/
def prepare (config : Datum) (files : Files.Tree) : Except Failure Prepared := do
  let config ← settings config
  let schema ← Schema.ofDatum (config.get "data") Schema.defaultPath
  let positives ← positiveClass (config.get "evaluation")
  let (table, loaded) ← Table.load files schema
  let (labels, rankings) ← table.rankings schema
  return ⟨config, schema, positives, loaded, labels, rankings⟩

/-- The subject of a run that is prepared. -/
def Prepared.subject (p : Prepared) : Subject := ⟨p.schema, p.positives, p.rankings.length⟩

/-- The rankings are evaluated, and the store is empty before. -/
def Prepared.evaluated (p : Prepared) : Except Failure Unit × Evaluation.State :=
  (Evaluation.evaluate p.positives p.labels p.rankings).run.run
    { journal := p.loaded ++
        [⟨.info, .run, "Evaluating " ++ toString p.rankings.length ++ " rankings"⟩] }

/-- What is done once the curves are there. -/
def conclude (config : Section) (output address : Datum) (subject : Subject) : Running Unit := do
  if (← get).evaluation.store.size = 0 then
    report .warning .run "No precision-recall curves were produced"
  else
    let path ← outputPath config output
    if path.isSet then writeCurves path
    if (config.get "use_mlflow").isSet then track config address subject

variable {files : Files.Tree} {service : Service} {config output address : Datum}

theorem fromConfig_eq (config output address : Datum) :
    fromConfig config output address = (do
      let config ← settings config
      let subject ← evaluateTable config
      conclude config output address subject) := rfl

/-- A computation fails as its stages do, or evaluates what they come to and goes on. Until then nothing but
the evaluation changes. -/
def Staged (stages : Except Failure Prepared) (next : Prepared → Running Unit) (w : World)
    (act : Running Unit) : Prop :=
  (∃ failure evaluation, stages = .error failure ∧
    act.run.run w = (.error failure, { w with evaluation })) ∨
  ∃ p, stages = .ok p ∧
    act.run.run w = ((liftM p.evaluated.1 : Running Unit) >>= fun _ => next p).run.run
      { w with evaluation := p.evaluated.2 }

section Stages

variable {α : Type} {next : Prepared → Running Unit} {w : World}

/-- One stage more. -/
theorem Staged.read {stages : α → Except Failure Prepared} {act : α → Running Unit} (read : Except Failure α)
    (h : ∀ a, Staged (stages a) next w (act a)) :
    Staged (read >>= stages) next w ((liftM read : Running α) >>= act) := by
  cases read with
  | error failure => exact .inl ⟨failure, w.evaluation, rfl, rfl⟩
  | ok a => exact h a

/-- Between the stages the journal goes on. -/
theorem Staged.evaluating {stages : Except Failure Prepared} {evaluation : Evaluation.State}
    {before : Running α} {act : α → Running Unit} {a : α}
    (hrun : before.run.run w = (.ok a, { w with evaluation }))
    (h : Staged stages next { w with evaluation } (act a)) :
    Staged stages next w (before >>= act) := by
  rw [Staged, run_bind_of_ok hrun]
  exact h

end Stages

/-- A run goes through its stages. -/
theorem staged_fromConfig (config output address : Datum) (files : Files.Tree) (service : Service) :
    Staged (prepare config files) (fun p => conclude p.config output address p.subject)
      { files, service } (fromConfig config output address) := by
  rw [prepare, fromConfig_eq]
  refine .read _ fun config => ?_
  simp only [evaluateTable, bind_assoc]
  refine .read _ fun schema => .read _ fun positives => ?_
  refine .evaluating (a := ({ files, service } : World)) rfl ?_
  refine .read _ fun loaded => ?_
  refine .evaluating rfl ?_
  refine .read _ fun read => ?_
  refine .evaluating rfl ?_
  exact .inr ⟨_, rfl, rfl⟩

/-! ## The file of the curves -/

/-- The files with a text at a path, and with the directories on the way to it. -/
def saved (files : Files.Tree) (path : Datum) (out : String) : Except Failure Files.Tree := do
  let path ← Schema.pathOf path
  (← files.makeDirectories path.parent).write path out

/-- A path leads to a file with a text. -/
def Holds (files : Files.Tree) (path : Datum) (out : String) : Prop :=
  ∃ place, Schema.pathOf path = .ok place ∧ files.find place = .ok (.text out)

theorem holds_of_saved {files' : Files.Tree} {path : Datum} {out : String}
    (h : saved files path out = .ok files') : Holds files' path out := by
  obtain ⟨place, hplace, hrest⟩ := bind_eq_ok_iff.mp h
  obtain ⟨made, -, hwrite⟩ := bind_eq_ok_iff.mp hrest
  exact ⟨place, hplace, Files.Tree.find_of_write hwrite⟩

/-- The text of the curves is saved, or the run fails. The service is not asked. -/
theorem run_writeCurves {w : World} {out : String} (path : Datum)
    (hout : (Evaluation.text.run.run w.evaluation).1 = .ok out) :
    ∃ t, (writeCurves path).run.run w = ((saved w.files path out).map fun _ => (), t) ∧
      (∀ files, saved w.files path out = .ok files → t.files = files) ∧ t.service = w.service ∧
        t.session = w.session ∧ Evaluation.Agrees w.evaluation t.evaluation := by
  have htext := Evaluation.reads_text w.evaluation
  rw [← (htext _ (.refl _)).1, hout] at htext
  cases hplace : Schema.pathOf path with
  | error failure =>
      rw [saved, writeCurves, hplace]
      exact ⟨w, rfl, by rintro files ⟨⟩, rfl, rfl, .refl _⟩
  | ok place =>
      have hmake := run_changeFiles w fun t => t.makeDirectories place.parent
      have hsaved : saved w.files path out =
          w.files.makeDirectories place.parent >>= fun made => made.write place out := by
        rw [saved, hplace]
        rfl
      rw [hsaved, writeCurves, run_bind_of_ok (run_lift_of_ok hplace)]
      cases hmade : w.files.makeDirectories place.parent with
      | error failure =>
          rw [hmade] at hmake
          exact ⟨w, run_bind_of_error hmake, by rintro files ⟨⟩, rfl, rfl, .refl _⟩
      | ok made =>
          rw [hmade] at hmake
          rw [run_bind_of_ok hmake]
          -- reading the text keeps the results, and what is written is the text from before
          obtain ⟨e, hread, he⟩ := run_evaluating_of_reads (w := { w with files := made }) htext
            (.refl _)
          rw [run_bind_of_ok hread]
          have hwrite := run_changeFiles { w with evaluation := e, files := made } fun t =>
            t.write place out
          change ∃ t, _ = ((made.write place out).map fun _ => (), t) ∧
            (∀ files, made.write place out = .ok files → _) ∧ _
          cases hwritten : made.write place out with
          | error failure =>
              rw [hwritten] at hwrite
              exact ⟨_, run_bind_of_error hwrite, by rintro files ⟨⟩, rfl, rfl, he⟩
          | ok files =>
              rw [hwritten] at hwrite
              exact ⟨_, run_bind_of_ok hwrite, by rintro _ ⟨⟩; rfl, rfl, rfl,
                ⟨he.store, he.curve, he.area⟩⟩

end RankingEval.Run
