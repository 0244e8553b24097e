/-
# The area that a curve remembers

A curve computes its area when it is read, and keeps the first one that is a number. However it is used, the area
that it remembers is therefore the first one that any reading gave. Until then a reading shows the points that are
there at the time, and an area that is undefined or not a number is computed anew. From then on every reading
shows the first area, whatever is added, and nothing is computed.
-/

import Mathlib
import RankingEval.Proofs.Curve.Uses

namespace RankingEval.RecallCurve

open RankingEval.Number RankingEval.Curve

variable {c : RecallCurve Float}

/-! ## Single readings -/

/-- Without a remembered area, the one under the points is read. -/
theorem value_readArea_of_none (h : c.area? = none) : c.readArea.value = c.curve.area := by
  rw [readArea, h]
  cases c.curve.area <;> rfl

/-- A remembered area is read as it is, and nothing is computed or changed. -/
theorem readArea_of_some {area : Float} (h : c.area? = some area) : c.readArea = ⟨.ok area, c, []⟩ := by
  rw [readArea, h]

theorem readLines_of_some {area : Float} (h : c.area? = some area) :
    c.readLines = (.ok (headLine area :: c.curve.lines), c, []) := by
  rw [readLines, readArea_of_some h]

/-! ## What is obtained -/

/-- The area that a use obtains: the one that it reads, if that is a number. -/
def Use.obtained (c : RecallCurve Float) : Use → Option Float
  | readArea | readLines => c.readArea.value.toOption.filter fun area => !area.isNaN
  | _ => none

/-- The area that is obtained first in the course of some uses. -/
def firstObtained (c : RecallCurve Float) : List Use → Option Float
  | [] => none
  | u :: uses => (u.obtained c).or (firstObtained (u.run c).2 uses)

/-- The curve after some uses. -/
def after (c : RecallCurve Float) (uses : List Use) : RecallCurve Float := uses.foldl (fun c u => (u.run c).2) c

/-- A reading keeps what it obtains, unless something is remembered already. -/
theorem area?_readArea (c : RecallCurve Float) :
    c.readArea.curve.area? = c.area?.or (c.readArea.value.toOption.filter fun area => !area.isNaN) := by
  cases hkept : c.area? with
  | some area =>
      rw [readArea_of_some hkept, hkept]
      rfl
  | none =>
      rw [Option.none_or, value_readArea_of_none hkept, readArea, hkept]
      cases c.curve.area with
      | error failure => exact hkept
      | ok area =>
          change (if area.isNaN = true then none else some area) = if (!area.isNaN) = true then some area else none
          cases area.isNaN <;> rfl

/-- So does every use. -/
theorem Use.area?_run (c : RecallCurve Float) (u : Use) :
    (u.run c).2.area? = c.area?.or (u.obtained c) := by
  cases u with
  | add | addSimplified | pointAt | setThrough => exact (Option.or_none).symm
  | readArea => exact area?_readArea c
  | readLines =>
      rw [run, curve_readLines]
      exact area?_readArea c

/-! ## Histories -/

/-- The area that is remembered after some uses is the one before them, or else the first one they obtain. -/
theorem area?_after (c : RecallCurve Float) (uses : List Use) :
    (after c uses).area? = c.area?.or (firstObtained c uses) := by
  induction uses generalizing c with
  | nil => exact Option.or_none.symm
  | cons u uses ih =>
      calc (after (u.run c).2 uses).area?
          = (u.run c).2.area?.or (firstObtained (u.run c).2 uses) := ih (u.run c).2
        _ = (c.area?.or (u.obtained c)).or (firstObtained (u.run c).2 uses) := by rw [u.area?_run c]
        _ = c.area?.or (firstObtained c (u :: uses)) := Option.or_assoc

/-- What is read after some uses of a curve. -/
structure Remembers (start : RecallCurve Float) (uses : List Use) : Prop where
  /-- As long as no area was obtained, the one under the present points is read, and it heads the lines. -/
  present : firstObtained start uses = none →
    (after start uses).readArea.value = (after start uses).curve.area ∧
      (after start uses).readLines.1 =
        (after start uses).curve.area.map fun area => headLine area :: (after start uses).curve.lines
  /-- A further use that obtains none leaves nothing behind: what is undefined or not a number is not kept. -/
  unkept : firstObtained start uses = none → ∀ u : Use, u.obtained (after start uses) = none →
    (after start (uses ++ [u])).area? = none
  /-- Once an area was obtained, it is read from then on without being computed, whatever is done. -/
  kept : ∀ area, firstObtained start uses = some area → ∀ more,
    (after start (uses ++ more)).readArea = ⟨.ok area, after start (uses ++ more), []⟩ ∧
      (after start (uses ++ more)).readLines =
        (.ok (headLine area :: (after start (uses ++ more)).curve.lines), after start (uses ++ more), [])

/-- However a curve is used, it remembers the first area that is obtained. -/
theorem remembers (size : ℤ) (uses : List Use) : Remembers (.ofSize size) uses := by
  have hafter : (after (.ofSize size) uses).area? = firstObtained (.ofSize size) uses :=
    (area?_after _ uses).trans Option.none_or
  have hsplit (more : List Use) :
      after (.ofSize size) (uses ++ more) = after (after (.ofSize size) uses) more := List.foldl_append
  constructor
  · intro hnone
    have hkept := hafter.trans hnone
    rw [fst_readLines, value_readArea_of_none hkept]
    exact ⟨rfl, rfl⟩
  · intro hnone u hobtained
    rw [hsplit, area?_after, hafter, hnone, Option.none_or, firstObtained, hobtained]
    rfl
  · intro area hsome more
    have hkept : (after (.ofSize size) (uses ++ more)).area? = some area := by
      rw [hsplit, area?_after, hafter, hsome]
      rfl
    exact ⟨readArea_of_some hkept, readLines_of_some hkept⟩

end RankingEval.RecallCurve
