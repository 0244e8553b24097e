/-
# Curves in use

A curve is built and read in any order: points are added with or without simplification, coordinates may be
unreadable, indices out of range, and areas undefined. Through all of this the growing buffer stands for a
plain list. A point that is added is appended or takes the place of the last one, what fails changes neither
the points nor the area that is remembered, and what can be seen of the curve is that list.
-/

import RankingEval.Proofs.Computation
import RankingEval.Proofs.Curve.Buffer
import RankingEval.Proofs.Curve.Polyline

namespace RankingEval.Curve

open RankingEval.Number

/-! ## What can be seen -/

variable {α : Type} {c : Curve α} {ps : List (Point α)}

/-- The coordinate of a point along an axis. -/
def Point.along (axis : Axis) (p : Point α) : α :=
  match axis with
  | .horizontal => p.x
  | .vertical => p.y

/-- A view shows the coordinates of the points, all of which were written. -/
theorem coordinates_view (h : c.buffer.Represents ps) (axis : Axis) :
    (c.view axis).coordinates = ps.map fun p => some (p.along axis) := by
  have hcell : (Cell.along axis ∘ Cell.of : Point α → Option α) = fun p => some (p.along axis) := by
    cases axis <;> rfl
  rw [view, h.take_cells, List.map_map, hcell]

/-- The place that an index stands for: from the end if it is negative. -/
def placeOf (count : ℕ) (index : ℤ) : ℤ := if index < 0 then index + count else index

/-- An index within the range finds the point at its place. -/
theorem pointAt_of_lt (h : c.buffer.Represents ps) {i : ℤ} (hlow : -ps.length ≤ i) (hhigh : i < ps.length) :
    ∃ p, ps[(placeOf ps.length i).toNat]? = some p ∧ c.pointAt (.int i) = .ok p := by
  have hsize : c.size = ps.length := h.count_eq
  have hplace : 0 ≤ placeOf ps.length i ∧ placeOf ps.length i < ps.length := by
    rw [placeOf]
    split_ifs <;> omega
  have hlocate : c.locate (.int i) = .ok (placeOf ps.length i).toNat := by
    simp only [locate, hsize]
    rw [← placeOf, if_pos (by simpa using hplace)]
  have hlt : (placeOf ps.length i).toNat < ps.length := by omega
  have hpoint : c.buffer.point? (placeOf ps.length i).toNat = some ps[(placeOf ps.length i).toNat] := by
    rw [h.point?_eq, List.getElem?_eq_getElem hlt]
  refine ⟨ps[(placeOf ps.length i).toNat], List.getElem?_eq_getElem hlt, ?_⟩
  simp only [pointAt, hlocate, bind, Except.bind, hpoint]
  rfl

/-- An index beyond the range finds no point. -/
theorem pointAt_of_not_lt (h : c.buffer.Represents ps) {i : ℤ}
    (hout : ¬ (-ps.length ≤ i ∧ i < ps.length)) :
    c.pointAt (.int i) = .error (.pointOutOfRange (.int (placeOf ps.length i)) ps.length) := by
  have hsize : c.size = ps.length := h.count_eq
  have hplace : ¬ (0 ≤ placeOf ps.length i ∧ placeOf ps.length i < ps.length) := by
    rw [placeOf]
    split_ifs <;> omega
  have hlocate : c.locate (.int i) =
      .error (.pointOutOfRange (.int (placeOf ps.length i)) ps.length) := by
    simp only [locate, hsize]
    rw [← placeOf, if_neg (by simpa using hplace)]
  rw [pointAt, hlocate]
  rfl

end RankingEval.Curve

namespace RankingEval.RecallCurve

open RankingEval.Number RankingEval.Curve

/-! ## Uses -/

/-- What may be done with a curve. -/
inductive Use where
  /-- Append a point. -/
  | add (x y : Datum)
  /-- Append a point, or move the last one there. -/
  | addSimplified (x y : Datum)
  /-- Ask for a point. -/
  | pointAt (index : Datum)
  /-- Set a coordinate through a view. -/
  | setThrough (axis : Axis) (index value : Datum)
  /-- Read the area. -/
  | readArea
  /-- Read the lines. -/
  | readLines

/-- The point of two coordinates, as it is stored. -/
def stored (x y : Datum) : Except Failure (Point Float) := Buffer.readPoint x.stored y.stored

/-- The point of two coordinates, as arithmetic takes it. -/
def operands (x y : Datum) : Except Failure (Point Float) := Buffer.readPoint x.operand y.operand

namespace Use

/-- The outcome of a use, and the curve afterwards. -/
def run (c : RecallCurve Float) : Use → Except Failure Unit × RecallCurve Float
  | add x y =>
    let (outcome, curve) := c.curve.add x.stored y.stored
    (outcome, { c with curve })
  | addSimplified x y =>
    let (outcome, curve) := c.curve.addSimplified straightness (operands x y) x.stored y.stored
    (outcome, { c with curve })
  | pointAt index => ((c.curve.pointAt index).map fun _ => (), c)
  | setThrough axis index value =>
    let (outcome, curve) := c.curve.setThrough (c.curve.view axis) index value.stored
    (outcome, { c with curve })
  | readArea => (c.readArea.value.map fun _ => (), c.readArea.curve)
  | readLines => (c.readLines.1.map fun _ => (), c.readLines.2.1)

/-- The point that a use adds. -/
def point? : Use → Option (Except Failure (Point Float))
  | add x y => some (stored x y)
  | addSimplified x y => some (stored x y)
  | _ => none

/-- What a use does to a plain list of points. -/
def onList (ps : List (Point Float)) : Use → Except Failure (List (Point Float))
  | add x y => (stored x y).map fun p => ps ++ [p]
  | addSimplified x y =>
    if ps.length < 2 then (stored x y).map fun p => ps ++ [p]
    else (operands x y).map fun p => (extend straightness ps.reverse p).reverse
  | _ => .ok ps

/-- The plain list after a use, which stays as it is if the use fails. -/
def plain (ps : List (Point Float)) (u : Use) : List (Point Float) := (u.onList ps).toOption.getD ps

end Use

/-- What arithmetic takes is stored as it is. -/
theorem stored_of_operand {d : Datum} {v : Float} (h : d.operand = .ok v) : d.stored = .ok v := by
  cases d <;> first | exact h | cases h

theorem stored_of_operands {x y : Datum} {p : Point Float} (h : operands x y = .ok p) :
    x.stored = .ok p.x ∧ y.stored = .ok p.y :=
  (Buffer.readPoint_eq_ok_iff.mp h).imp stored_of_operand stored_of_operand

variable {c : RecallCurve Float} {ps : List (Point Float)}

/-- Where there are fewer than two points, there is nothing to simplify. -/
theorem Use.run_addSimplified_of_lt (h : c.curve.size < 2) (x y : Datum) :
    (Use.addSimplified x y).run c = (Use.add x y).run c := by
  have hpush : c.curve.buffer.pushSimplified straightness (operands x y) x.stored y.stored =
      c.curve.buffer.push x.stored y.stored := if_pos h
  simp only [Use.run, Curve.addSimplified, Curve.add, hpush]

/-- Where there are two points, one that arithmetic refuses changes nothing. -/
theorem Use.run_addSimplified_of_error (h : ¬ c.curve.size < 2) {x y : Datum} {e : Failure}
    (hread : operands x y = .error e) : (Use.addSimplified x y).run c = (.error e, c) := by
  have hpush : c.curve.buffer.pushSimplified straightness (operands x y) x.stored y.stored =
      (.error e, c.curve.buffer) := by
    rw [hread]
    exact if_neg h
  simp only [Use.run, Curve.addSimplified, hpush]

theorem Use.buffer_run_of_point?_eq_none {u : Use} (hu : u.point? = none) :
    (u.run c).2.curve.buffer = c.curve.buffer := by
  cases u with
  | add x y => cases hu
  | addSimplified x y => cases hu
  | pointAt index => rfl
  | setThrough axis index value => rfl
  | readArea => exact congrArg Curve.buffer c.curve_readArea
  | readLines =>
      rw [Use.run, c.curve_readLines]
      exact congrArg Curve.buffer c.curve_readArea

/-- A point is accepted if the list accepts it, and the buffer then represents the list with the point. -/
theorem Use.run_refines (h : c.curve.buffer.Represents ps) {u : Use} (hu : u.point? ≠ none) :
    (u.run c).1 = ((u.onList ps).map fun _ => ()) ∧
      (u.run c).2.curve.buffer.Represents (u.plain ps) := by
  have hadd (x y : Datum) :
      ((Use.add x y).run c).1 = (((stored x y).map fun p => ps ++ [p]).map fun _ => ()) ∧
        ((Use.add x y).run c).2.curve.buffer.Represents
          (((stored x y).map fun p => ps ++ [p]).toOption.getD ps) := by
    rw [map_except_map]
    exact ⟨Buffer.fst_push _ _ _, h.push_readPoint x.stored y.stored⟩
  cases u with
  | add x y => exact hadd x y
  | addSimplified x y =>
      rw [Use.plain, Use.onList]
      -- below two points there is no segment to continue, and the use is a plain addition
      by_cases hfew : ps.length < 2
      · have hsize : c.curve.size < 2 := by rwa [Curve.size, h.count_eq]
        rw [Use.run_addSimplified_of_lt hsize, if_pos hfew]
        exact hadd x y
      · have hsize : ¬ c.curve.size < 2 := by rwa [Curve.size, h.count_eq]
        rw [if_neg hfew]
        cases hread : operands x y with
        | error e =>
            rw [Use.run_addSimplified_of_error hsize hread]
            exact ⟨rfl, h⟩
        | ok p =>
            obtain ⟨hx, hy⟩ := stored_of_operands hread
            have hok := Buffer.fst_pushSimplified (ε := Failure) straightness c.curve.buffer p
            have hnext := h.pushSimplified (ε := Failure) straightness p
            rw [← hread, ← hx, ← hy] at hok hnext
            exact ⟨hok, hnext⟩
  | pointAt | setThrough | readArea | readLines => exact absurd rfl hu

/-- The buffer goes on to represent the list after each use. -/
theorem Use.run_represents (h : c.curve.buffer.Represents ps) (u : Use) :
    (u.run c).2.curve.buffer.Represents (u.plain ps) := by
  by_cases hu : u.point? = none
  · have hplain : u.plain ps = ps := by
      cases u with
      | add | addSimplified => cases hu
      | pointAt | setThrough | readArea | readLines => rfl
    rw [Use.buffer_run_of_point?_eq_none hu, hplain]
    exact h
  · exact (Use.run_refines h hu).2

/-- What one use does to the points and to the area that is remembered. -/
inductive Step (c : RecallCurve Float) (u : Use) : Except Failure Unit × RecallCurve Float → Prop where
  /-- A use that fails changes neither. -/
  | failed (e : Failure) (d : RecallCurve Float) (hpoints : d.points = c.points)
      (harea : d.area? = c.area?) : Step c u (.error e, d)
  /-- A use that adds no point changes none. -/
  | read (d : RecallCurve Float) (hu : u.point? = none) (hpoints : d.points = c.points) :
      Step c u (.ok (), d)
  /-- A point is appended. -/
  | appended (p : Point Float) (d : RecallCurve Float) (hu : u.point? = some (.ok p))
      (hpoints : d.points = c.points ++ [p]) (harea : d.area? = c.area?) : Step c u (.ok (), d)
  /-- With simplification, a point may take the place of the last of at least two. -/
  | replaced (x y : Datum) (p : Point Float) (d : RecallCurve Float) (hu : u = .addSimplified x y)
      (hstored : u.point? = some (.ok p)) (htwo : 2 ≤ c.points.length)
      (hpoints : d.points = c.points.dropLast ++ [p]) (harea : d.area? = c.area?) :
      Step c u (.ok (), d)

/-- On a plain list, a point that is accepted is appended, or it takes the place of the last one. -/
theorem Use.onList_eq_ok {u : Use} {qs : List (Point Float)} (hu : u.point? ≠ none)
    (h : u.onList ps = .ok qs) : ∃ p, u.point? = some (.ok p) ∧
      (qs = ps ++ [p] ∨
        (∃ x y, u = .addSimplified x y) ∧ 2 ≤ ps.length ∧ qs = ps.dropLast ++ [p]) := by
  have happended {x y : Datum} (hread : (stored x y).map (fun p => ps ++ [p]) = .ok qs) :
      ∃ p, stored x y = .ok p ∧ qs = ps ++ [p] := by
    cases hpoint : stored x y with
    | error e =>
        rw [hpoint] at hread
        cases hread
    | ok p =>
        rw [hpoint] at hread
        cases hread
        exact ⟨p, rfl, rfl⟩
  cases u with
  | add x y =>
      obtain ⟨p, hp, hqs⟩ := happended h
      exact ⟨p, congrArg some hp, .inl hqs⟩
  | addSimplified x y =>
      rw [Use.onList] at h
      split_ifs at h with hfew
      · obtain ⟨p, hp, hqs⟩ := happended h
        exact ⟨p, congrArg some hp, .inl hqs⟩
      · cases hread : operands x y with
        | error e =>
            rw [hread] at h
            cases h
        | ok p =>
            rw [hread] at h
            cases h
            have hp : stored x y = .ok p := Buffer.readPoint_eq_ok_iff.mpr (stored_of_operands hread)
            rcases reverse_extend_eq straightness ps p with heq | ⟨htwo, heq⟩
            · exact ⟨p, congrArg some hp, .inl heq⟩
            · exact ⟨p, congrArg some hp, .inr ⟨⟨x, y, rfl⟩, htwo, heq⟩⟩
  | pointAt | setThrough | readArea | readLines => exact absurd rfl hu

theorem Use.step_of_adding (h : c.curve.buffer.Represents c.points) {u : Use} (hu : u.point? ≠ none) :
    Step c u (u.run c) := by
  obtain ⟨houtcome, hrepresents⟩ := Use.run_refines h hu
  have hpoints : (u.run c).2.points = u.plain c.points := hrepresents.points_eq
  have harea : (u.run c).2.area? = c.area? := by
    cases u with
    | add | addSimplified => rfl
    | pointAt | setThrough | readArea | readLines => exact absurd rfl hu
  rcases hrun : u.run c with ⟨outcome, d⟩
  rw [hrun] at hpoints houtcome harea
  rw [Use.plain] at hpoints
  cases hlist : u.onList c.points with
  | error e =>
      rw [hlist] at hpoints houtcome
      cases houtcome
      exact .failed e d hpoints harea
  | ok qs =>
      rw [hlist] at hpoints houtcome
      cases houtcome
      obtain ⟨p, hp, hqs | ⟨⟨x, y, hxy⟩, htwo, hqs⟩⟩ := Use.onList_eq_ok hu hlist
      · exact .appended p d hp (hpoints.trans hqs) harea
      · exact .replaced x y p d hxy hp htwo (hpoints.trans hqs) harea

/-- A reading of the area that fails changes nothing, and one that succeeds changes no point. -/
theorem step_of_reading {u : Use} (hu : u.point? = none) {α : Type} {value : Except Failure α}
    (hvalue : value.isOk = c.readArea.value.isOk) :
    Step c u (value.map fun _ => (), c.readArea.curve) := by
  cases value with
  | ok a => exact .read _ hu (congrArg Curve.points c.curve_readArea)
  | error e =>
      cases harea : c.readArea.value with
      | ok a =>
          rw [harea] at hvalue
          cases hvalue
      | error failure =>
          rw [curve_readArea_of_error harea]
          exact .failed e c rfl rfl

theorem Use.step (h : c.curve.buffer.Represents c.points) (u : Use) : Step c u (u.run c) := by
  cases u with
  | add | addSimplified => exact Use.step_of_adding h (by rintro ⟨⟩)
  | pointAt index =>
      rw [Use.run]
      cases c.curve.pointAt index with
      | error e => exact .failed e c rfl rfl
      | ok p => exact .read c rfl rfl
  | setThrough axis index value => exact .failed _ c rfl rfl
  | readArea => exact step_of_reading rfl rfl
  | readLines =>
      rw [Use.run, curve_readLines]
      exact step_of_reading rfl c.isOk_readLines

/-! ## Histories -/

/-- Everything that can be seen of a curve is a list of points. -/
structure Shows (c : RecallCurve Float) (ps : List (Point Float)) : Prop where
  /-- The cells in use are written, and hold the points. -/
  represents : c.curve.buffer.Represents ps
  /-- The points are those of the list. -/
  points : c.points = ps
  /-- There are as many. -/
  size : c.curve.size = ps.length
  /-- A view shows the coordinates of the points, all of which were written, for reading only. -/
  view : ∀ axis, c.curve.view axis = ⟨axis, ps.map fun p => some (p.along axis), false⟩
  /-- Setting a coordinate through it fails and leaves the curve alone. -/
  readOnly : ∀ axis index value,
    c.curve.setThrough (c.curve.view axis) index value = (.error .unreadable, c.curve)
  /-- An index within the range, from the end if it is negative, finds the point at its place. -/
  found : ∀ i : ℤ, -ps.length ≤ i → i < ps.length →
    ∃ p, ps[(placeOf ps.length i).toNat]? = some p ∧ c.curve.pointAt (.int i) = .ok p
  /-- An index beyond the range finds none. -/
  beyond : ∀ i : ℤ, ¬ (-ps.length ≤ i ∧ i < ps.length) →
    c.curve.pointAt (.int i) = .error (.pointOutOfRange (.int (placeOf ps.length i)) ps.length)
  /-- Making room keeps the points, and the next one is then written into a cell of the buffer. -/
  room : c.curve.buffer.reserve.Represents ps ∧
    c.curve.buffer.reserve.count < c.curve.buffer.reserve.cells.size
  /-- The last point is moved within the buffer. -/
  inside : 2 ≤ ps.length → c.curve.buffer.count - 1 < c.curve.buffer.cells.size

theorem shows_of_represents (h : c.curve.buffer.Represents ps) : Shows c ps where
  represents := h
  points := h.points_eq
  size := h.count_eq
  view axis := by rw [← coordinates_view h axis]; rfl
  readOnly _ _ _ := rfl
  found _ hlow hhigh := pointAt_of_lt h hlow hhigh
  beyond _ hout := pointAt_of_not_lt h hout
  room := ⟨h.reserve, h.count_lt_reserve⟩
  inside htwo := by
    have hcount := h.count_eq
    have hle := h.count_le
    omega

/-- The point that a use has added, if it succeeded. -/
def Use.accepted (u : Use) (outcome : Except Failure Unit) : List (Point Float) :=
  match outcome, u.point? with
  | .ok (), some (.ok p) => [p]
  | _, _ => []

/-- The points that some uses add with success, in turn. -/
def added (c : RecallCurve Float) : List Use → List (Point Float)
  | [] => []
  | u :: uses => u.accepted (u.run c).1 ++ added (u.run c).2 uses

/-- Some of the points that were given are kept in order, among them the first and the last one. -/
structure Picks (given kept : List (Point Float)) : Prop where
  /-- They are kept in order. -/
  sublist : kept.Sublist given
  /-- The first one is kept. -/
  first : kept.head? = given.head?
  /-- The last one is kept. -/
  last : kept.getLast? = given.getLast?

variable {given kept : List (Point Float)}

theorem Picks.append (h : Picks given kept) (p : Point Float) : Picks (given ++ [p]) (kept ++ [p]) where
  sublist := h.sublist.append_right [p]
  first := by rw [List.head?_append, List.head?_append, h.first]
  last := by rw [List.getLast?_concat, List.getLast?_concat]

theorem Picks.replace (h : Picks given kept) (htwo : 2 ≤ kept.length) (p : Point Float) :
    Picks (given ++ [p]) (kept.dropLast ++ [p]) where
  sublist := ((List.dropLast_sublist kept).trans h.sublist).append_right [p]
  first := by
    have hhead : kept.dropLast.head? = kept.head? := by
      rcases kept with _ | ⟨first, _ | ⟨second, rest⟩⟩
      · rfl
      · simp at htwo
      · rfl
    rw [List.head?_append, List.head?_append, hhead, h.first]
  last := by rw [List.getLast?_concat, List.getLast?_concat]

/-- One step keeps the points picked among those that were added. -/
theorem Step.picks {u : Use} {result : Except Failure Unit × RecallCurve Float} (hstep : Step c u result)
    (h : Picks given c.points) : Picks (given ++ u.accepted result.1) result.2.points := by
  cases hstep with
  | failed e d hpoints => simpa [Use.accepted, hpoints] using h
  | read d hu hpoints => simpa [Use.accepted, hu, hpoints] using h
  | appended p d hu hpoints => simpa [Use.accepted, hu, hpoints] using h.append p
  | replaced x y p d hu hstored htwo hpoints =>
      simpa [Use.accepted, hstored, hpoints] using h.replace htwo p

/-- After some uses, the buffer represents what the plain list has become, and the points are still picked
among those that were added. -/
theorem represents_foldl_run (uses : List Use) (h : c.curve.buffer.Represents ps) (hpicks : Picks given ps) :
    (uses.foldl (fun c u => (u.run c).2) c).curve.buffer.Represents (uses.foldl Use.plain ps) ∧
      Picks (given ++ added c uses) (uses.foldl Use.plain ps) := by
  induction uses generalizing c ps given with
  | nil => exact ⟨h, by rwa [added, List.append_nil]⟩
  | cons u uses ih =>
      have hnext := u.run_represents h
      rw [List.foldl_cons, List.foldl_cons, added, ← List.append_assoc]
      refine ih hnext ?_
      have hpoints : c.points = ps := h.points_eq
      rw [← hpoints] at h hpicks
      rw [← hnext.points_eq]
      exact (Use.step h u).picks hpicks

/-- Whatever is done with a curve, in any order and with any data, its growing buffer stands for a plain list
to which the same is done, and this list is all that can be seen of it. Every further use does to the points
what it does to the list, and one that fails changes nothing. The points that are there are some of those
that were added, in order, with the first and the last of them. -/
theorem uses_refine_list (labelX labelY : String) (size : ℤ) (uses : List Use) :
    let start : RecallCurve Float := ⟨.ofSize labelX labelY size, none⟩
    let c := uses.foldl (fun c u => (u.run c).2) start
    Shows c (uses.foldl Use.plain []) ∧
      (∀ u : Use, Step c u (u.run c) ∧
        (u.point? ≠ none → (u.run c).1 = (u.onList c.points).map fun _ => ())) ∧
      Picks (added start uses) c.points := by
  intro start c
  have hstart : start.curve.buffer.Represents [] := Buffer.represents_ofSize size
  obtain ⟨hrepresents, hpicks⟩ := represents_foldl_run uses hstart ⟨.slnil, rfl, rfl⟩
  have hpoints : c.points = uses.foldl Use.plain [] := hrepresents.points_eq
  refine ⟨shows_of_represents hrepresents, fun u => ?_, ?_⟩
  · rw [← hpoints] at hrepresents
    exact ⟨Use.step hrepresents u, fun hu => (Use.run_refines hrepresents hu).1⟩
  · rw [hpoints]
    exact hpicks

end RankingEval.RecallCurve
