/-
# The text of results is unambiguous

The text of the results has no lengths and no ends of blocks. Every block starts with two lines that are marked,
one with the name of the ranking and one with the area, and goes on with one line for each point. No line of a
point is marked, so that the points of a block end where the next line is marked, and the line after the name
is never taken for a name. Where no name holds a line feed, the text therefore tells the names and the points,
whatever the names look like and however few points there are.
-/

import Mathlib
import RankingEval.Proofs.Evaluation.Readings
import RankingEval.Proofs.Number.NaturalText

namespace RankingEval

open RankingEval.Number RankingEval.Curve

/-! ## Lines -/

/-- A line goes to its line feed. -/
def OneLine (line : String) : Prop := '\n' ∉ line.toList

/-- Texts that end at the same mark are equal when none of them holds the mark. -/
theorem split_at_mark {mark : Char} {cs cs' rest rest' : List Char} (h : mark ∉ cs) (h' : mark ∉ cs')
    (heq : cs ++ mark :: rest = cs' ++ mark :: rest') : cs = cs' ∧ rest = rest' := by
  rcases List.append_eq_append_iff.mp heq with ⟨more, rfl, htail⟩ | ⟨more, rfl, htail⟩
  · cases more with
    | nil => simpa using htail
    | cons c more =>
        rw [List.cons_append, List.cons.injEq] at htail
        simp [htail.1] at h'
  · cases more with
    | nil => simpa [eq_comm] using htail
    | cons c more =>
        rw [List.cons_append, List.cons.injEq] at htail
        simp [htail.1] at h

theorem toList_textOfLines_cons (line : String) (lines : List String) :
    (textOfLines (line :: lines)).toList = line.toList ++ '\n' :: (textOfLines lines).toList := by
  rw [textOfLines, List.map_cons, String.join_cons, ← textOfLines]
  simp

/-- The text of lines tells the lines. -/
theorem textOfLines_inj {lines lines' : List String} (h : ∀ line ∈ lines, OneLine line)
    (h' : ∀ line ∈ lines', OneLine line) (heq : textOfLines lines = textOfLines lines') :
    lines = lines' := by
  have hempty (line : String) (lines : List String) : textOfLines [] ≠ textOfLines (line :: lines) := by
    intro heq
    have hlist := congrArg String.toList heq
    rw [toList_textOfLines_cons] at hlist
    exact List.append_ne_nil_of_right_ne_nil _ (List.cons_ne_nil _ _) hlist.symm
  induction lines generalizing lines' with
  | nil =>
      cases lines' with
      | nil => rfl
      | cons line lines' => exact absurd heq (hempty line lines')
  | cons line lines ih =>
      cases lines' with
      | nil => exact absurd heq.symm (hempty line lines)
      | cons line' lines' =>
          have hlist := congrArg String.toList heq
          rw [toList_textOfLines_cons, toList_textOfLines_cons] at hlist
          rw [List.forall_mem_cons] at h h'
          obtain ⟨hline, hrest⟩ := split_at_mark h.1 h'.1 hlist
          rw [String.toList_inj.mp hline, ih h.2 h'.2 (String.toList_inj.mp hrest)]

/-! ## Lines of points -/

namespace Curve

theorem notMem_text {mark : Char} (hmark : mark ∈ [' ', '#', '\n']) (x : Float) :
    mark ∉ (Number.text x).toList := by
  intro hmem
  have hwritten := mem_text hmem
  fin_cases hmark <;> revert hwritten <;> decide

theorem toList_lineOf (p : Point Float) :
    (lineOf p).toList = (Number.text p.x).toList ++ ' ' :: (Number.text p.y).toList := by
  simp [lineOf]

/-- The line of a point tells the point. -/
theorem lineOf_injective : Function.Injective lineOf := by
  intro p q h
  have hlist := congrArg String.toList h
  rw [toList_lineOf, toList_lineOf] at hlist
  obtain ⟨hx, hy⟩ := split_at_mark (notMem_text (by simp) _) (notMem_text (by simp) _) hlist
  have hx := text_injective (String.toList_inj.mp hx)
  have hy := text_injective (String.toList_inj.mp hy)
  cases p
  cases q
  rw [Point.mk.injEq]
  exact ⟨hx, hy⟩

theorem notMem_lineOf {mark : Char} (hmark : mark ∈ ['#', '\n']) (p : Point Float) :
    mark ∉ (lineOf p).toList := by
  have htext (x : Float) : mark ∉ (Number.text x).toList := notMem_text (List.mem_cons_of_mem _ hmark) x
  have hspace : mark ≠ ' ' := by
    rintro rfl
    simp at hmark
  rw [toList_lineOf]
  simp [htext, hspace]

end Curve

/-! ## Blocks -/

namespace Evaluation

/-- What the text shows of an entry of the store: the name of the ranking, and the points of its curve. -/
def State.shown (s : State) : List (String × List (Point Float)) :=
  s.store.entries.map fun entry => (entry.1.name, (s.curve entry.2).points)

/-- The lines of a block: the name, the area, and the points. -/
def blockLines (name : String) (area : Float) (points : List (Point Float)) : List String :=
  ("# " ++ name) :: RecallCurve.headLine area :: points.map Curve.lineOf

theorem oneLine_of_mem_blockLines {name : String} (hname : OneLine name) (area : Float)
    (points : List (Point Float)) : ∀ line ∈ blockLines name area points, OneLine line := by
  have hheadLine : OneLine (RecallCurve.headLine area) := by
    have htext : '\n' ∉ (Number.text area).toList := Curve.notMem_text (by simp) area
    simp [OneLine, RecallCurve.headLine, RecallCurve.areaName, htext]
  rw [OneLine] at hname
  simp only [blockLines, List.forall_mem_cons, List.forall_mem_map]
  refine ⟨by simp [OneLine, hname], hheadLine, fun p _ => ?_⟩
  exact Curve.notMem_lineOf (by simp) p

/-- A line is marked. -/
def Marked (line : String) : Prop := '#' ∈ line.toList

/-- Lines of points end where the next line is marked. -/
theorem map_lineOf_inj {points points' : List (Point Float)} {rest rest' : List String}
    (hrest : ∀ line ∈ rest.head?, Marked line) (hrest' : ∀ line ∈ rest'.head?, Marked line)
    (heq : points.map Curve.lineOf ++ rest = points'.map Curve.lineOf ++ rest') :
    points = points' ∧ rest = rest' := by
  have hpoint (p : Point Float) : ¬Marked (Curve.lineOf p) := Curve.notMem_lineOf (by simp) p
  induction points generalizing points' with
  | nil =>
      cases points' with
      | nil => exact ⟨rfl, heq⟩
      | cons p points' =>
          rw [List.map_nil, List.nil_append] at heq
          exact absurd (hrest _ (by rw [heq]; rfl)) (hpoint p)
  | cons p points ih =>
      cases points' with
      | nil =>
          rw [List.map_nil, List.nil_append] at heq
          exact absurd (hrest' _ (by rw [← heq]; rfl)) (hpoint p)
      | cons p' points' =>
          rw [List.map_cons, List.map_cons, List.cons_append, List.cons_append, List.cons.injEq] at heq
          obtain ⟨rfl, rfl⟩ := ih heq.2
          rw [Curve.lineOf_injective heq.1]
          exact ⟨rfl, rfl⟩

/-- An entry of the store with the area of its curve. -/
abbrev Shown := (String × List (Point Float)) × Float

/-- The lines of blocks tell the names and the points. -/
theorem flatMap_blockLines_inj {blocks blocks' : List Shown}
    (heq : (blocks.flatMap fun b => blockLines b.1.1 b.2 b.1.2) =
      blocks'.flatMap fun b => blockLines b.1.1 b.2 b.1.2) :
    blocks.map (·.1) = blocks'.map (·.1) := by
  have hmarked (blocks : List Shown) :
      ∀ line ∈ (blocks.flatMap fun b => blockLines b.1.1 b.2 b.1.2).head?, Marked line := by
    cases blocks with
    | nil => simp
    | cons b blocks => simp [blockLines, Marked]
  induction blocks generalizing blocks' with
  | nil =>
      cases blocks' with
      | nil => rfl
      | cons b' blocks' => cases heq
  | cons b blocks ih =>
      cases blocks' with
      | nil => cases heq
      | cons b' blocks' =>
          rw [List.flatMap_cons, List.flatMap_cons, blockLines, blockLines] at heq
          simp only [List.cons_append, List.cons.injEq] at heq
          obtain ⟨hname, -, hlines⟩ := heq
          obtain ⟨hpoints, hrest⟩ := map_lineOf_inj (hmarked blocks) (hmarked blocks') hlines
          have hname : b.1.1 = b'.1.1 := (String.append_right_inj "# ").mp hname
          rw [List.map_cons, List.map_cons, ih hrest, Prod.ext hname hpoints]

theorem block_eq_ok {s : State} {entry : Ranking × Nat} {out : String} (h : block s entry = .ok out) :
    ∃ area, out = textOfLines (blockLines entry.1.name area (s.curve entry.2).points) := by
  rw [block, RecallCurve.readLines] at h
  cases harea : (s.curve entry.2).readArea.value with
  | error failure =>
      simp only [harea] at h
      cases h
  | ok area =>
      simp only [harea] at h
      cases h
      exact ⟨area, rfl⟩

/-- The text of a store, where it can be read, is made of the blocks that the store shows. -/
theorem exists_blocks {s : State} {out : String} (h : (text.run.run s).1 = .ok out) :
    ∃ blocks : List Shown, blocks.map (·.1) = s.shown ∧
      out = textOfLines (blocks.flatMap fun b => blockLines b.1.1 b.2 b.1.2) := by
  rw [(reads_text s s (.refl s)).1] at h
  cases htexts : s.store.entries.mapM (block s) with
  | error failure =>
      rw [htexts] at h
      cases h
  | ok texts =>
      rw [htexts] at h
      cases h
      have hall := mapM_eq_ok_iff.mp htexts
      rw [State.shown]
      clear htexts
      generalize s.store.entries = entries at hall ⊢
      induction hall with
      | nil => exact ⟨[], rfl, rfl⟩
      | cons hfirst _ ih =>
          obtain ⟨area, rfl⟩ := block_eq_ok hfirst
          obtain ⟨blocks, hblocks, hjoin⟩ := ih
          refine ⟨(_, area) :: blocks, by rw [List.map_cons, List.map_cons, hblocks], ?_⟩
          rw [String.join_cons, hjoin, List.flatMap_cons]
          simp only [textOfLines, List.map_append, String.join_append]

/-- The text of the results tells their names and points: two stores whose texts can be read and are equal,
and whose names hold no line feed, show the same names with the same points in the same order. -/
theorem shown_eq_of_text_eq {s t : State} {out : String}
    (hs : ∀ entry ∈ s.store.entries, '\n' ∉ entry.1.name.toList)
    (ht : ∀ entry ∈ t.store.entries, '\n' ∉ entry.1.name.toList)
    (hstext : (text.run.run s).1 = .ok out) (httext : (text.run.run t).1 = .ok out) :
    s.shown = t.shown := by
  have hlines {u : State} {blocks : List Shown} (hu : ∀ entry ∈ u.store.entries, '\n' ∉ entry.1.name.toList)
      (hblocks : blocks.map (·.1) = u.shown) :
      ∀ line ∈ blocks.flatMap fun b => blockLines b.1.1 b.2 b.1.2, OneLine line := by
    intro line hline
    obtain ⟨b, hb, hline⟩ := List.mem_flatMap.mp hline
    have hshown : b.1 ∈ u.shown := hblocks ▸ List.mem_map_of_mem hb
    obtain ⟨entry, hentry, heq⟩ := List.mem_map.mp hshown
    refine oneLine_of_mem_blockLines ?_ _ _ line hline
    rw [← heq]
    exact hu entry hentry
  obtain ⟨blocks, hblocks, hout⟩ := exists_blocks hstext
  obtain ⟨blocks', hblocks', hout'⟩ := exists_blocks httext
  have heq := textOfLines_inj (hlines hs hblocks) (hlines ht hblocks') (hout.symm.trans hout')
  rw [← hblocks, ← hblocks', flatMap_blockLines_inj heq]

/-- A curve with a step. -/
def stepped : RecallCurve Float := ((RecallCurve.ofSize 2).extendTo 0 ⟨0.5, 1⟩).extendTo 0 ⟨1, 0.5⟩

/-- A curve with one point. -/
def pointed : RecallCurve Float := (RecallCurve.ofSize 2).extendTo 0 ⟨1, 0.25⟩

/-- Two rankings with the names of other lines, and the places of their curves. -/
def lookalikes (shelf : Array (RecallCurve Float)) (first second : ℕ) : State where
  shelf
  store := ⟨[(.order ⟨.made 0, "# PR-AUC: 0.0", []⟩, first), (.order ⟨.made 1, "0.5 1.0", []⟩, second)]⟩

/-- The text of the two rankings: the area of the first curve is not the one in its name, and the line of its
first point stands again in the name of the second. -/
def lookalikeText : String :=
  "# # PR-AUC: 0.0\n# PR-AUC: 0.375\n0.5 1.0\n1.0 0.5\n# 0.5 1.0\n# PR-AUC: 0.0\n1.0 0.25\n"

theorem shown_eq_of_text_eq_lookalikes :
    (text.run.run (lookalikes #[stepped, pointed] 0 1)).1 = .ok lookalikeText ∧
      (text.run.run (lookalikes #[pointed, stepped] 1 0)).1 = .ok lookalikeText ∧
        (lookalikes #[stepped, pointed] 0 1).shown = (lookalikes #[pointed, stepped] 1 0).shown := by
  have hread {s : State} (h : (text.run.run s).1.toOption.any (· == lookalikeText) = true) :
      (text.run.run s).1 = .ok lookalikeText := by
    obtain ⟨out, hout, heq⟩ := exists_of_any h
    rwa [beq_iff_eq.mp heq] at hout
  have htext : (text.run.run (lookalikes #[stepped, pointed] 0 1)).1 = .ok lookalikeText :=
    hread (by decide +kernel)
  have htext' : (text.run.run (lookalikes #[pointed, stepped] 1 0)).1 = .ok lookalikeText :=
    hread (by decide +kernel)
  exact ⟨htext, htext', shown_eq_of_text_eq (by decide) (by decide) htext htext'⟩

end Evaluation

end RankingEval
