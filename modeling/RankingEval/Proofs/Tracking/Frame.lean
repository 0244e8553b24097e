/-
# What tracking leaves alone

Whatever is asked of the service, and whatever it refuses: the results are still the ones from before, and every
file is still there. At most a directory for the runs is added. Each step of a session keeps both, and so does
every sequence of such steps.
-/

import Mathlib
import RankingEval.Proofs.Files.Tree
import RankingEval.Proofs.Tracking.Lifecycle

namespace RankingEval.Tracking

open RankingEval.Running

/-- The results of one world are there in another one, and so are its files. -/
structure Retains (w t : World) : Prop where
  results : Evaluation.Agrees w.evaluation t.evaluation
  files : ∀ p node, w.files.find p = .ok node → t.files.find p = .ok node

theorem Retains.of_eq {w t : World} (hresults : t.evaluation = w.evaluation) (hfiles : t.files = w.files) :
    Retains w t := by
  constructor
  · rw [hresults]
    exact .refl _
  · rw [hfiles]
    exact fun _ _ h => h

protected theorem Retains.refl (w : World) : Retains w w := .of_eq rfl rfl

protected theorem Retains.trans {w t u : World} (h : Retains w t) (h' : Retains t u) : Retains w u :=
  ⟨h.results.trans h'.results, fun p node hfind => h'.files p node (h.files p node hfind)⟩

variable {α β : Type}

/-- A computation keeps results and files in every world, also where it fails. -/
def Preserves (act : Running α) : Prop := ∀ w, Retains w (act.run.run w).2

namespace Preserves

variable {act : Running α}

protected theorem pure (a : α) : Preserves (pure a : Running α) := fun w => .refl w

protected theorem throw (failure : Failure) : Preserves (throw failure : Running α) := fun w => .refl w

protected theorem bind {next : α → Running β} (hact : Preserves act) (hnext : ∀ a, Preserves (next a)) :
    Preserves (act >>= next) := by
  intro w
  have hfirst := hact w
  rcases hrun : act.run.run w with ⟨failure | a, t⟩
  · rw [hrun] at hfirst
    rwa [run_bind_of_error hrun]
  · rw [hrun] at hfirst
    rw [run_bind_of_ok hrun]
    exact hfirst.trans (hnext a t)

protected theorem tryCatch {handler : Failure → Running α} (hact : Preserves act)
    (hhandler : ∀ failure, Preserves (handler failure)) : Preserves (tryCatch act handler) := by
  intro w
  have hfirst := hact w
  rcases hrun : act.run.run w with ⟨failure | a, t⟩
  · rw [hrun] at hfirst
    rw [run_tryCatch_of_error hrun]
    exact hfirst.trans (hhandler failure t)
  · rw [hrun] at hfirst
    rwa [run_tryCatch_of_ok hrun]

/-- What looks at the world first keeps what it keeps in each world. -/
protected theorem get {next : World → Running α} (hnext : ∀ w, Preserves (next w)) :
    Preserves (do next (← get)) :=
  fun w => hnext w w

theorem report (level : Level) (text : String) : Preserves (report level .tracking text) :=
  fun _ => ⟨⟨rfl, fun _ => rfl, fun _ => rfl⟩, fun _ _ h => h⟩

theorem call (c : Call) : Preserves (call c) := by
  intro w
  rw [run_call]
  exact .of_eq rfl rfl

theorem findExperiment (name : Datum) : Preserves (findExperiment name) := by
  refine (call _).bind fun _ => .get fun w => ?_
  cases w.service.experiment? name with
  | some id => exact (report _ _).bind fun _ => .pure id
  | none =>
      apply (call _).bind
      intro _
      refine Preserves.bind (fun w => .of_eq rfl rfl) fun id => ?_
      exact (report _ _).bind fun _ => .pure id

/-- Where no service is named, a directory is made for the runs. -/
theorem address (uri : Datum) : Preserves (address uri) := by
  cases uri with
  | missing =>
      refine Preserves.bind (fun w => ?_) fun _ => .get fun w => .pure _
      rw [run_changeFiles]
      cases hmade : w.files.makeDirectory [localDirectory] with
      | error failure => exact .refl w
      | ok files => exact ⟨.refl _, fun p node hfind => Files.Tree.find_of_makeDirectory hmade hfind⟩
  | _ => exact .pure _

theorem connect (experiment uri : Datum) : Preserves (connect experiment uri) := by
  refine (address uri).bind fun found => (call _).bind fun _ => (report _ _).bind fun _ => ?_
  apply Preserves.bind
  · exact (findExperiment experiment).tryCatch fun failure => (report _ _).bind fun _ => .throw failure
  · exact fun id => (call _).bind fun _ => .pure id

theorem requestRun (runName id : Datum) : Preserves (requestRun runName id) := by
  refine (call _).bind fun _ => Preserves.bind (fun w => .of_eq rfl rfl) fun run => ?_
  exact (report _ _).bind fun _ => .pure run

theorem openSession (experiment runName uri : Datum) : Preserves (openSession experiment runName uri) := by
  refine (connect experiment uri).bind fun id => (requestRun runName id).bind fun run => ?_
  exact Preserves.bind (fun w => .of_eq rfl rfl) fun _ => .pure id

theorem note (c : Call) (what done : String) : Preserves (note c what done) :=
  ((call c).bind fun _ => report _ _).tryCatch fun _ => report _ _

theorem endRun (status : Datum) : Preserves (endRun status) := by
  refine .get fun w => ?_
  split
  · exact (call _).bind fun _ => (report _ _).bind fun _ w => .of_eq rfl rfl
  · exact .pure ()

/-- What only reads the results keeps them. -/
theorem evaluating {act : Evaluating α}
    (h : ∀ s, ∃ value, Reads (Evaluation.Agrees s) act value) : Preserves (evaluating act) := by
  intro w
  obtain ⟨value, hreads⟩ := h w.evaluation
  exact ⟨(hreads w.evaluation (.refl _)).2, fun _ _ hfind => hfind⟩

theorem logCurves (file : Datum) : Preserves (logCurves file) := by
  apply Preserves.bind
  · exact evaluating fun s => ⟨_, Evaluation.reads_summary s⟩
  · intro areas
    apply (note _ _ _).bind
    intro _
    exact (evaluating fun s => ⟨_, Evaluation.reads_text s⟩).bind fun text => note _ _ _

/-- A block of work keeps what its work keeps. -/
theorem block {work : Running Unit} (hwork : Preserves work) : Preserves (block work) := by
  apply Preserves.bind
  · exact hwork.tryCatch fun failure => (endRun _).bind fun _ => .throw failure
  · exact fun _ => endRun _

end Preserves

end RankingEval.Tracking
