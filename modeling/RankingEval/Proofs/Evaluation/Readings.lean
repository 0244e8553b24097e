/-
# What is read from a store

The text of the results and the summary of their areas look at the curves on the shelf one after the other.
An area that is read may be remembered by its curve. This changes no point and no area, so that what is read
later is read as if nothing had been read before: the text is one block for each entry of the store, and the
summary is one area for each name.
-/

import RankingEval.Proofs.Computation
import RankingEval.Proofs.Curve.Buffer
import RankingEval.Proofs.Evaluation.Steps
import RankingEval.Proofs.Keyed

namespace RankingEval

open RankingEval.Number RankingEval.Curve

namespace Evaluation

/-! ## States that hold the same results -/

/-- The curve at a place of the shelf. -/
def State.curve (s : State) (place : Nat) : RecallCurve Float := s.shelf.getD place (.ofSize 0)

/-- A state holds the results of another one: its store is the same, and so are the points of every curve
and what is read as its area. Which areas the curves remember and what was reported may differ. -/
structure Agrees (s t : State) : Prop where
  store : t.store = s.store
  curve : ∀ place, (t.curve place).curve = (s.curve place).curve
  area : ∀ place, (t.curve place).readArea.value = (s.curve place).readArea.value

protected theorem Agrees.refl (s : State) : Agrees s s := ⟨rfl, fun _ => rfl, fun _ => rfl⟩

protected theorem Agrees.trans {s t u : State} (h : Agrees s t) (h' : Agrees t u) : Agrees s u :=
  ⟨h'.store.trans h.store, fun place => (h'.curve place).trans (h.curve place),
    fun place => (h'.area place).trans (h.area place)⟩

variable (s : State)

/-- The curve at a place is replaced there by the one that remembers its area. -/
theorem curve_set (t : State) (place other : Nat) (journal : Journal) :
    State.curve { t with
        shelf := t.shelf.set! place (t.curve place).readArea.curve
        journal } other = t.curve other ∨
      State.curve { t with
        shelf := t.shelf.set! place (t.curve place).readArea.curve
        journal } other = (t.curve other).readArea.curve := by
  simp only [State.curve, Array.getD_eq_getD_getElem?, Array.set!_eq_setIfInBounds,
    Array.getElem?_setIfInBounds]
  by_cases hplace : place = other
  · subst hplace
    by_cases hbound : place < t.shelf.size
    · simp [hbound]
    · simp [hbound]
  · simp [hplace]

theorem reads_areaAt (place : Nat) :
    Reads (Agrees s) (areaAt place) (s.curve place).readArea.value := by
  intro t ht
  rw [run_areaAt t place rfl]
  refine ⟨ht.area place, ht.store, fun other => ?_, fun other => ?_⟩
  · rcases curve_set t place other _ with h | h
    · exact (congrArg _ h).trans (ht.curve other)
    · exact (congrArg _ h).trans ((RecallCurve.curve_readArea _).trans (ht.curve other))
  · rcases curve_set t place other _ with h | h
    · exact (congrArg (·.readArea.value) h).trans (ht.area other)
    · exact (congrArg (·.readArea.value) h).trans
        ((RecallCurve.value_readArea_readArea _).trans (ht.area other))

theorem reads_linesAt (place : Nat) :
    Reads (Agrees s) (linesAt place) (s.curve place).readLines.1 := by
  have hlines : (s.curve place).readLines.1 = (s.curve place).readArea.value >>= fun area =>
      .ok (RecallCurve.headLine area :: (s.curve place).curve.lines) := by
    rw [RecallCurve.fst_readLines]
    cases (s.curve place).readArea.value <;> rfl
  rw [hlines, linesAt]
  refine (reads_areaAt s place).bind fun area t ht => ⟨?_, ht⟩
  change Except.ok (RecallCurve.headLine area :: (t.curve place).curve.lines) = _
  rw [ht.curve]

/-! ## The text and the summary -/

/-- The block of an entry in the text of a store: a line with the name of the ranking, and the lines of its
curve. -/
def block (entry : Ranking × Nat) : Except Failure String :=
  (s.curve entry.2).readLines.1.map fun lines => textOfLines (("# " ++ entry.1.name) :: lines)

/-- The area of an entry under the name of its ranking. -/
def namedArea (entry : Ranking × Nat) : Except Failure (String × Float) :=
  (s.curve entry.2).readArea.value.map fun area => (entry.1.name, area)

theorem namedArea_eq_ok_iff {entry : Ranking × Nat} {named : String × Float} :
    namedArea s entry = .ok named ↔
      ∃ area, (s.curve entry.2).readArea.value = .ok area ∧ named = (entry.1.name, area) := by
  rw [namedArea]
  cases (s.curve entry.2).readArea.value <;> simp [Except.map, eq_comm]

theorem textOfLines_flatten (blocks : List (List String)) :
    textOfLines blocks.flatten = String.join (blocks.map textOfLines) := by
  induction blocks with
  | nil => rfl
  | cons lines blocks ih =>
      rw [List.map_cons, String.join_cons, ← ih, List.flatten_cons, textOfLines, textOfLines,
        textOfLines, List.map_append, String.join_append]

/-- The text of the results is one block for each entry of the store, in order. It fails like the first
entry whose curve has no area. -/
theorem reads_text :
    Reads (Agrees s) text ((s.store.entries.mapM (block s)).map String.join) := by
  have hlines (entry : Ranking × Nat) : Reads (Agrees s)
      (do return ("# " ++ entry.1.name) :: (← linesAt entry.2))
      ((s.curve entry.2).readLines.1.map fun lines => ("# " ++ entry.1.name) :: lines) :=
    (reads_linesAt s entry.2).map fun lines => ("# " ++ entry.1.name) :: lines
  have hblock : block s = fun entry =>
      ((s.curve entry.2).readLines.1.map fun lines => ("# " ++ entry.1.name) :: lines).map
        textOfLines := by
    funext entry
    rw [block, map_except_map]
    rfl
  have hjoin : String.join ∘ List.map textOfLines = fun blocks => textOfLines blocks.flatten :=
    funext fun blocks => (textOfLines_flatten blocks).symm
  rw [hblock, mapM_except_map, map_except_map, hjoin]
  let rest (entries : List (Ranking × Nat)) : Evaluating String := do
    return textOfLines (← entries.mapM fun entry => do
      return ("# " ++ entry.1.name) :: (← linesAt entry.2)).flatten
  exact .get (fun t : State => t.store.entries) rest (fun _ ht => congrArg Store.entries ht.store)
    ((Reads.mapM hlines s.store.entries).map fun blocks => textOfLines blocks.flatten)

/-- The summary is the area of every entry by name: a name stands where its first entry stands, with the
area of its last one. It fails like the first entry whose curve has no area. -/
theorem reads_summary :
    Reads (Agrees s) summary
      ((s.store.entries.mapM (namedArea s)).map (Keyed.latest fun area => area.1)) := by
  have hstep (areas : List (String × Float)) (entry : Ranking × Nat) : Reads (Agrees s)
      (do return putName areas entry.1.name (← areaAt entry.2))
      ((namedArea s entry).map (Keyed.put (fun area => area.1) areas)) := by
    rw [namedArea, map_except_map]
    exact (reads_areaAt s entry.2).map (putName areas entry.1.name)
  have hfold : Keyed.latest (fun area : String × Float => area.1) =
      List.foldl (Keyed.put fun area => area.1) [] :=
    funext fun areas => (Keyed.foldl_put _ areas).symm
  rw [hfold, ← foldlM_except_map]
  let rest (entries : List (Ranking × Nat)) : Evaluating (List (String × Float)) :=
    entries.foldlM (fun areas entry => do
      return putName areas entry.1.name (← areaAt entry.2)) []
  exact .get (fun t : State => t.store.entries) rest (fun _ ht => congrArg Store.entries ht.store)
    (.foldlM hstep s.store.entries [])

/-- The summary can be read if every entry has an area. -/
theorem isOk_summary :
    (summary.run.run s).1.isOk = s.store.entries.all fun entry => (s.curve entry.2).readArea.value.isOk := by
  rw [(reads_summary s s (.refl s)).1, isOk_map, isOk_mapM]
  congr 1
  funext entry
  rw [namedArea, isOk_map]

/-- The text can be read where the summary can: both need the area of every entry. -/
theorem isOk_text_eq_isOk_summary :
    (text.run.run s).1.isOk = (summary.run.run s).1.isOk := by
  rw [(reads_text s s (.refl s)).1, (reads_summary s s (.refl s)).1, isOk_map, isOk_map, isOk_mapM,
    isOk_mapM]
  congr 1
  funext entry
  rw [block, namedArea, isOk_map, isOk_map, RecallCurve.isOk_readLines]

end Evaluation

end RankingEval
