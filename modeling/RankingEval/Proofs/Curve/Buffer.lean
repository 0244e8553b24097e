/-
# What a buffer stands for

A buffer represents a list of points when its cells in use hold these points and there is room for more
after a doubling. Every writing operation has one lemma here, which says which list the written buffer
represents; the curves built on buffers are then polylines, and later proofs do not open a cell. What cannot
be written leaves the represented list as it is, and so does what only reads.
-/

import Mathlib.Data.Int.Notation
import Mathlib.Data.List.Basic
import RankingEval.Curve.Recall

namespace RankingEval.Curve

open RankingEval.Number

variable {α ε : Type}

/-- The cell that holds a point. -/
def Cell.of (p : Point α) : Cell α := ⟨some p.x, some p.y⟩

namespace Buffer

/-- The cells in use hold the points of a list. -/
structure Represents (b : Buffer α) (ps : List (Point α)) : Prop where
  /-- As many cells are in use as there are points. -/
  count_eq : b.count = ps.length
  /-- No cell beyond the last one is in use. -/
  count_le : b.count ≤ b.cells.size
  /-- There is a cell, so that doubling makes room. -/
  size_pos : 0 < b.cells.size
  /-- The cells in use hold the points in order. -/
  cell_eq : ∀ (i : ℕ) (h : i < ps.length), b.cells[i]? = some (Cell.of ps[i])

/-- A buffer without points represents the empty list, whatever size was asked for. -/
theorem represents_ofSize (size : ℤ) : (ofSize size : Buffer α).Represents [] where
  count_eq := rfl
  count_le := Nat.zero_le _
  size_pos := by
    simp only [ofSize, Array.size_replicate]
    omega
  cell_eq i h := absurd h (Nat.not_lt_zero i)

variable {b : Buffer α} {ps : List (Point α)}

/-- The cells in use are those of the points. -/
theorem Represents.take_cells (h : b.Represents ps) : b.cells.toList.take b.count = ps.map Cell.of := by
  refine List.ext_getElem? fun i => ?_
  rw [List.getElem?_map]
  by_cases hi : i < ps.length
  · rw [List.getElem?_take_of_lt (h.count_eq ▸ hi), Array.getElem?_toList, h.cell_eq i hi,
      List.getElem?_eq_getElem hi]
    rfl
  · rw [List.getElem?_eq_none (by rw [List.length_take, h.count_eq]; omega),
      List.getElem?_eq_none (by omega)]
    rfl

/-- The points of a buffer are those it represents. -/
theorem Represents.points_eq (h : b.Represents ps) : b.points = ps := by
  have hpoint : (Cell.point? ∘ Cell.of : Point α → Option (Point α)) = some := rfl
  rw [points, h.take_cells, List.filterMap_map, hpoint, List.filterMap_some]

/-- A point of a buffer is found at its place in the list. -/
theorem Represents.point?_eq (h : b.Represents ps) (i : ℕ) : b.point? i = ps[i]? := by
  rw [point?, h.count_eq]
  by_cases hi : i < ps.length
  · rw [if_pos hi, h.cell_eq i hi, List.getElem?_eq_getElem hi]
    rfl
  · rw [if_neg hi, List.getElem?_eq_none (by omega)]

/-- Making room changes no point. -/
theorem Represents.reserve (h : b.Represents ps) : b.reserve.Represents ps := by
  rw [Buffer.reserve]
  split_ifs with hroom
  · exact h
  · refine ⟨h.count_eq, ?_, ?_, fun i hi => ?_⟩
    · rw [Array.size_append]
      exact Nat.le_trans h.count_le (Nat.le_add_right _ _)
    · rw [Array.size_append]
      exact Nat.add_pos_left h.size_pos _
    · have hcount := h.count_eq
      have hle := h.count_le
      rw [Array.getElem?_append_left (by omega), h.cell_eq i hi]

/-- After making room a cell is free. -/
theorem Represents.count_lt_reserve (h : b.Represents ps) :
    b.reserve.count < b.reserve.cells.size := by
  have hle := h.count_le
  have hpos := h.size_pos
  rw [Buffer.reserve]
  split_ifs with hroom
  · exact hroom
  · change b.count < (b.cells ++ Array.replicate b.cells.size Cell.blank).size
    rw [Array.size_append, Array.size_replicate]
    omega

/-- Writing both coordinates fills one cell and leaves the others alone. -/
private theorem getElem?_write {i : ℕ} (hi : i < b.cells.size) (x y : α) (j : ℕ) :
    ((b.write i (.ok x : Except ε α) (.ok y)).2.cells)[j]? =
      if i = j then some (Cell.of ⟨x, y⟩) else b.cells[j]? := by
  simp only [write, writeX, writeY, Array.getElem?_modify]
  split_ifs with hij
  · subst hij
    rw [Array.getElem?_eq_getElem hi]
    rfl
  · rfl

private theorem size_write (i : ℕ) (x y : α) :
    (b.write i (.ok x : Except ε α) (.ok y)).2.cells.size = b.cells.size := by
  simp only [write, writeX, writeY, Array.size_modify]

/-- Writing to a cell in use replaces one point. -/
theorem Represents.write (h : b.Represents ps) {i : ℕ} (hi : i < ps.length) (x y : α) :
    (b.write i (.ok x : Except ε α) (.ok y)).2.Represents (ps.set i ⟨x, y⟩) := by
  obtain ⟨hcount, hle, hpos, hcell⟩ := h
  have hsize := @size_write α ε b i x y
  refine ⟨?_, ?_, ?_, fun j hj => ?_⟩
  · rw [List.length_set, ← hcount]
    rfl
  · exact Nat.le_trans hle (Nat.le_of_eq hsize.symm)
  · exact Nat.lt_of_lt_of_eq hpos hsize.symm
  · rw [List.length_set] at hj
    refine (@getElem?_write α ε _ _ (by omega) x y j).trans ?_
    rw [List.getElem_set]
    split_ifs with hij
    · rfl
    · exact hcell j hj

/-- Pushing a readable point appends it. -/
theorem Represents.push (h : b.Represents ps) (x y : α) :
    (b.push (.ok x : Except ε α) (.ok y)).2.Represents (ps ++ [⟨x, y⟩]) := by
  have hroom := h.count_lt_reserve
  obtain ⟨hcount, hle, hpos, hcell⟩ := h.reserve
  have hsize := @size_write α ε b.reserve b.reserve.count x y
  refine ⟨?_, ?_, ?_, fun i hi => ?_⟩
  · rw [List.length_append, ← hcount]
    rfl
  · change b.reserve.count + 1 ≤ _
    exact Nat.le_trans hroom (Nat.le_of_eq hsize.symm)
  · exact Nat.lt_of_lt_of_eq hpos hsize.symm
  · rw [List.length_append, List.length_singleton, ← hcount] at hi
    refine (@getElem?_write α ε _ _ hroom x y i).trans ?_
    split_ifs with hlast
    · subst hlast
      simp only [hcount, List.getElem_append_right (Nat.le_refl _), Nat.sub_self,
        List.getElem_singleton]
    · rw [hcell i (by omega), List.getElem_append_left (by omega)]

/-- Two coordinates that may be unreadable, as a point. -/
def readPoint (x y : Except ε α) : Except ε (Point α) := do
  return ⟨← x, ← y⟩

theorem readPoint_eq_ok_iff {x y : Except ε α} {p : Point α} :
    readPoint x y = .ok p ↔ x = .ok p.x ∧ y = .ok p.y := by
  constructor
  · intro h
    cases x with
    | error e => cases h
    | ok x =>
        cases y with
        | error e => cases h
        | ok y =>
            cases h
            exact ⟨rfl, rfl⟩
  · rintro ⟨rfl, rfl⟩
    rfl

/-- Whether a point can be pushed depends on its coordinates alone. -/
theorem fst_push (b : Buffer α) (x y : Except ε α) : (b.push x y).1 = (readPoint x y).map fun _ => () := by
  cases x <;> cases y <;> rfl

/-- What an unreadable point leaves behind lies beyond the cells in use. -/
theorem Represents.push_of_error (h : b.Represents ps) {x y : Except ε α} {e : ε}
    (hread : readPoint x y = .error e) : (b.push x y).2.Represents ps := by
  obtain ⟨hcount, hle, hpos, hcell⟩ := h.reserve
  cases x with
  | error e => exact ⟨hcount, hle, hpos, hcell⟩
  | ok x =>
      cases y with
      | ok y => cases hread
      | error e =>
          -- the horizontal coordinate was written, but its cell is not in use
          have hsize : (b.reserve.writeX b.reserve.count x).cells.size = b.reserve.cells.size :=
            Array.size_modify ..
          refine ⟨hcount, Nat.le_trans hle (Nat.le_of_eq hsize.symm), Nat.lt_of_lt_of_eq hpos hsize.symm,
            fun i hi => ?_⟩
          change (b.reserve.cells.modify b.reserve.count _)[i]? = _
          rw [Array.getElem?_modify, if_neg (by omega), hcell i hi]

/-- Pushing a point appends it if it is readable. -/
theorem Represents.push_readPoint (h : b.Represents ps) (x y : Except ε α) :
    (b.push x y).2.Represents (((readPoint x y).map fun p => ps ++ [p]).toOption.getD ps) := by
  cases hread : readPoint x y with
  | error e => exact h.push_of_error hread
  | ok p =>
      obtain ⟨rfl, rfl⟩ := readPoint_eq_ok_iff.mp hread
      exact h.push p.x p.y

/-- Where both coordinates are readable, simplification refuses nothing. -/
theorem fst_pushSimplified [Coordinate α] (tolerance : α) (b : Buffer α) (p : Point α) :
    (b.pushSimplified tolerance (.ok p : Except ε (Point α)) (.ok p.x) (.ok p.y)).1 = .ok () := by
  rw [Buffer.pushSimplified]
  split_ifs
  · rfl
  · split
    · split_ifs <;> rfl
    · rfl

/-- Pushing a readable point with simplification extends the polyline. -/
theorem Represents.pushSimplified [Coordinate α] (h : b.Represents ps) (tolerance : α)
    (p : Point α) :
    (b.pushSimplified tolerance (.ok p : Except ε (Point α)) (.ok p.x) (.ok p.y)).2.Represents
      (extend tolerance ps.reverse p).reverse := by
  have hcount := h.count_eq
  have hpush : (b.push (.ok p.x : Except ε α) (.ok p.y)).2.Represents (p :: ps.reverse).reverse := by
    rw [List.reverse_cons, List.reverse_reverse]
    exact h.push p.x p.y
  rw [Buffer.pushSimplified, h.point?_eq, h.point?_eq]
  -- the list is split as the rule for polylines splits it, from its last point backwards
  rcases hback : ps.reverse with _ | ⟨last, _ | ⟨first, rest⟩⟩
  · have hlength : ps.length = 0 := by rw [← List.length_reverse, hback, List.length_nil]
    rw [if_pos (by omega)]
    rw [hback] at hpush
    exact hpush
  · have hlength : ps.length = 1 := by rw [← List.length_reverse, hback]; rfl
    rw [if_pos (by omega)]
    rw [hback] at hpush
    exact hpush
  · have hps : ps = rest.reverse ++ [first, last] := by
      rw [← List.reverse_reverse ps, hback]
      simp
    have hlength : ps.length = rest.length + 2 := by simp [hps]
    have hfirst : ps[b.count - 2]? = some first := by
      simp [hcount, hps]
    have hlast : ps[b.count - 1]? = some last := by
      simp [hcount, hps]
    rw [if_neg (by omega), hfirst, hlast, extend]
    dsimp only
    split_ifs with hforward
    · have hset : (p :: first :: rest).reverse = ps.set (b.count - 1) p := by
        simp [hcount, hps]
      rw [hset]
      exact h.write (by omega) p.x p.y
    · rw [hback] at hpush
      exact hpush

end Buffer

end RankingEval.Curve

namespace RankingEval.Curve

variable {α : Type}

/-- Appends a point, wherever it lies. -/
def addPoint (c : Curve α) (p : Point α) : Curve α :=
  (c.add (.ok p.x : Except Empty α) (.ok p.y)).2

/-- Adding points to a curve in turn appends them all. -/
theorem represents_foldl_addPoint (points : List (Point α)) {c : Curve α} {ps : List (Point α)}
    (h : c.buffer.Represents ps) : (points.foldl addPoint c).buffer.Represents (ps ++ points) := by
  induction points generalizing c ps with
  | nil =>
      rw [List.append_nil]
      exact h
  | cons p points ih =>
      have hstep : (c.addPoint p).buffer.Represents (ps ++ [p]) :=
        @Buffer.Represents.push α Empty _ _ h p.x p.y
      have hrest := ih hstep
      rw [List.append_assoc, List.singleton_append] at hrest
      exact hrest

/-- A new curve to which points are added in turn holds them all. -/
theorem points_foldl_addPoint (labelX labelY : String) (size : ℤ) (points : List (Point α)) :
    (points.foldl addPoint (ofSize labelX labelY size)).points = points := by
  have hstart : (ofSize labelX labelY size : Curve α).buffer.Represents [] :=
    Buffer.represents_ofSize size
  exact (represents_foldl_addPoint points hstart).points_eq

variable [Number.Coordinate α]

/-- Extending a curve by points in turn extends the polyline that it represents. -/
theorem represents_foldl_extendTo (tolerance : α) (points : List (Point α)) {c : Curve α}
    {ps : List (Point α)} (h : c.buffer.Represents ps) :
    (points.foldl (extendTo tolerance) c).buffer.Represents
      (points.foldl (extend tolerance) ps.reverse).reverse := by
  induction points generalizing c ps with
  | nil =>
      rw [List.foldl_nil, List.foldl_nil, List.reverse_reverse]
      exact h
  | cons p points ih =>
      have hstep : (c.extendTo tolerance p).buffer.Represents
          (extend tolerance ps.reverse p).reverse := h.pushSimplified tolerance p
      have hrest := ih hstep
      rw [List.reverse_reverse] at hrest
      exact hrest

/-- The points of a new curve that is extended in turn are the polyline left of the points given. -/
theorem points_foldl_extendTo (tolerance : α) (labelX labelY : String) (size : ℤ)
    (points : List (Point α)) :
    (points.foldl (extendTo tolerance) (ofSize labelX labelY size)).points =
      simplified tolerance points := by
  have hstart : (ofSize labelX labelY size : Curve α).buffer.Represents [] :=
    Buffer.represents_ofSize size
  exact (represents_foldl_extendTo tolerance points hstart).points_eq

end RankingEval.Curve

namespace RankingEval.RecallCurve

open RankingEval.Curve

variable {α : Type} [Number.Coordinate α]

/-- The points of a curve that was extended in turn are the polyline left of the points given. -/
theorem points_foldl_extendTo (tolerance : α) (size : ℤ) (points : List (Point α)) :
    (points.foldl (extendTo tolerance) (ofSize size)).points = simplified tolerance points := by
  have hcurve := @List.foldl_hom _ _ _ RecallCurve.curve (extendTo tolerance) (Curve.extendTo tolerance)
    points (ofSize size) fun _ _ => rfl
  change (points.foldl (extendTo tolerance) (ofSize size)).curve.points = _
  rw [← hcurve]
  exact Curve.points_foldl_extendTo tolerance _ _ size points

/-- A curve that was extended in turn has as many points as it counts. -/
theorem size_foldl_extendTo (tolerance : α) (size : ℤ) (points : List (Point α)) :
    (points.foldl (extendTo tolerance) (ofSize size)).curve.size =
      (simplified tolerance points).length := by
  have hcurve := @List.foldl_hom _ _ _ RecallCurve.curve (extendTo tolerance) (Curve.extendTo tolerance)
    points (ofSize size) fun _ _ => rfl
  have hstart : (ofSize size : RecallCurve α).curve.buffer.Represents [] := Buffer.represents_ofSize size
  rw [← hcurve]
  exact (Curve.represents_foldl_extendTo tolerance points hstart).count_eq

/-- Extending a curve computes no area. -/
theorem area?_foldl_extendTo (tolerance : α) (points : List (Point α)) (c : RecallCurve α) :
    (points.foldl (extendTo tolerance) c).area? = c.area? := by
  induction points generalizing c with
  | nil => rfl
  | cons p points ih => exact ih (c.extendTo tolerance p)

/-- Reading the area leaves the points alone. -/
theorem curve_readArea (c : RecallCurve α) : c.readArea.curve.curve = c.curve := by
  rw [readArea]
  split
  · rfl
  · split <;> rfl

/-- Reading an area again gives it again, whether or not the curve remembers it. -/
theorem value_readArea_readArea (c : RecallCurve α) :
    c.readArea.curve.readArea.value = c.readArea.value := by
  rcases c with ⟨curve, _ | a⟩
  · rcases harea : curve.area with failure | a
    · simp [readArea, harea]
    · by_cases hundefined : Number.Coordinate.isUndefined a = true
      · simp [readArea, harea, hundefined]
      · simp [readArea, harea, hundefined]
  · rfl

theorem curve_readLines (c : RecallCurve Float) : c.readLines.2.1 = c.readArea.curve := by
  rw [readLines]
  cases c.readArea.value <;> rfl

/-- The lines are headed by the area that is read. -/
theorem fst_readLines (c : RecallCurve Float) :
    c.readLines.1 = c.readArea.value.map fun area => headLine area :: c.curve.lines := by
  rw [readLines]
  cases c.readArea.value <;> rfl

theorem isOk_readLines (c : RecallCurve Float) : c.readLines.1.isOk = c.readArea.value.isOk := by
  rw [fst_readLines]
  cases c.readArea.value <;> rfl

/-- A reading of the area that fails leaves the curve as it is. -/
theorem curve_readArea_of_error {c : RecallCurve α} {e : Failure} (h : c.readArea.value = .error e) :
    c.readArea.curve = c := by
  rw [readArea] at h ⊢
  split at h
  · cases h
  · split at h
    · rfl
    · cases h

/-- An area that cannot be read is undefined. -/
theorem eq_areaUndefined_of_readArea {c : RecallCurve α} {e : Failure} (h : c.readArea.value = .error e) :
    e = .areaUndefined := by
  rw [readArea] at h
  split at h
  · cases h
  · rcases harea : Curve.area? c.curve.points with _ | a <;> rw [Curve.area, harea] at h <;> cases h
    rfl

end RankingEval.RecallCurve
