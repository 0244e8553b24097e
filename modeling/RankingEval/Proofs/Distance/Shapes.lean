/-
# Arrays and their shapes

Nested sequences form an array if no item at any depth differs in shape from the items beside it. The reader of
shapes finds the shape exactly of these (`shapeOf?_eq_some_iff`), and an array whose cells are all numbers is read as
a grid of its shape. Two arrays then have a distance exactly if their shapes are equal: nothing is repeated to fill
up a row or a dimension.
-/

import Mathlib
import RankingEval.Distance.Metric
import RankingEval.Proofs.Computation
import RankingEval.Proofs.Datum.Order

namespace RankingEval.Distance

/-- Nested sequences have a shape. -/
inductive HasShape : Datum → List Nat → Prop where
  /-- What is no sequence has no extent. -/
  | cell {d : Datum} : (∀ items, d ≠ .list items) → HasShape d []
  /-- A sequence without items has one dimension, in which it is empty. -/
  | empty : HasShape (.list []) [0]
  /-- The items of a sequence have one shape, to which their number is added. -/
  | rows {items : List Datum} {shape : List Nat} : items ≠ [] → (∀ item ∈ items, HasShape item shape) →
      HasShape (.list items) (items.length :: shape)

theorem haveShape_iff {shape : List Nat} {items : List Datum} :
    haveShape shape items = true ↔ ∀ item ∈ items, shapeOf? item = some shape := by
  induction items with
  | nil => exact iff_of_true rfl fun _ h => absurd h List.not_mem_nil
  | cons item items ih => rw [haveShape, Bool.and_eq_true, beq_iff_eq, ih, List.forall_mem_cons]

theorem shapeOf?_of_not_list {d : Datum} (h : ∀ items, d ≠ .list items) : shapeOf? d = some [] := by
  cases d with
  | list items => exact absurd rfl (h items)
  | _ => simp [shapeOf?]

/-- The shape of a sequence with items is the shape of the items and their number. -/
theorem shapeOf?_list_eq_some_iff {items : List Datum} (hne : items ≠ []) {shape : List Nat} :
    shapeOf? (.list items) = some shape ↔
      ∃ inner, (∀ item ∈ items, shapeOf? item = some inner) ∧ shape = items.length :: inner := by
  obtain ⟨first, rest, rfl⟩ := List.exists_cons_of_ne_nil hne
  rw [shapeOf?]
  cases hfirst : shapeOf? first with
  | none =>
      refine iff_of_false (Option.some_ne_none shape).symm ?_
      rintro ⟨inner, hitems, -⟩
      cases hfirst.symm.trans (hitems first List.mem_cons_self)
  | some inner =>
      dsimp only
      split_ifs with hrest
      · rw [haveShape_iff] at hrest
        constructor
        · intro h
          exact ⟨inner, List.forall_mem_cons.mpr ⟨hfirst, hrest⟩, (Option.some.inj h).symm⟩
        · rintro ⟨other, hitems, rfl⟩
          obtain rfl := Option.some.inj (hfirst.symm.trans (hitems first List.mem_cons_self))
          rfl
      · refine iff_of_false id ?_
        rintro ⟨other, hitems, -⟩
        obtain ⟨hother, hothers⟩ := List.forall_mem_cons.mp hitems
        obtain rfl := Option.some.inj (hfirst.symm.trans hother)
        exact hrest (haveShape_iff.mpr hothers)

theorem hasShape_of_shapeOf? {d : Datum} {shape : List Nat} (h : shapeOf? d = some shape) : HasShape d shape := by
  induction d using Datum.inductionOn generalizing shape with
  | scalar a k hk =>
      have hcell : ∀ items, a ≠ .list items := by
        rintro items rfl
        cases hk
      obtain rfl := Option.some.inj ((shapeOf?_of_not_list hcell).symm.trans h)
      exact .cell hcell
  | list items ih =>
      rcases eq_or_ne items [] with rfl | hne
      · rw [shapeOf?] at h
        cases h
        exact .empty
      · obtain ⟨inner, hitems, rfl⟩ := (shapeOf?_list_eq_some_iff hne).mp h
        exact .rows hne fun item hitem => ih item hitem (hitems item hitem)
  | map entries _ =>
      have hcell : ∀ items, Datum.map entries ≠ .list items := by
        intro items h
        cases h
      obtain rfl := Option.some.inj ((shapeOf?_of_not_list hcell).symm.trans h)
      exact .cell hcell

/-- The reader of shapes finds the shape of every array, and of nothing else. -/
theorem shapeOf?_eq_some_iff {d : Datum} {shape : List Nat} : shapeOf? d = some shape ↔ HasShape d shape := by
  refine ⟨hasShape_of_shapeOf?, fun h => ?_⟩
  induction h with
  | cell hcell => exact shapeOf?_of_not_list hcell
  | empty => rw [shapeOf?]
  | rows hne _ ih => exact (shapeOf?_list_eq_some_iff hne).mpr ⟨_, ih, rfl⟩

/-- A datum is an array of numbers, or of what is stored as a number. -/
structure IsArray (d : Datum) (shape : List Nat) : Prop where
  shaped : HasShape d shape
  numeric : ∀ leaf ∈ leaves d, leaf.stored.isOk = true

/-- Arrays of numbers are read as grids of their shape. -/
theorem IsArray.exists_grid {d : Datum} {shape : List Nat} (h : IsArray d shape) :
    ∃ g, Grid.ofDatum d = .ok g ∧ g.shape = shape := by
  have hshape := shapeOf?_eq_some_iff.mpr h.shaped
  have hcells : ((leaves d).mapM Datum.stored).isOk = true := by
    rw [isOk_mapM, List.all_eq_true]
    exact h.numeric
  unfold Grid.ofDatum
  split
  next found hfound =>
    obtain rfl := Option.some.inj (hfound.symm.trans hshape)
    split
    next cells _ => exact ⟨_, rfl, rfl⟩
    next failure hfailure =>
      rw [hfailure] at hcells
      cases hcells
  next hnone => cases hnone.symm.trans hshape

/-- Shape and cells are all that there is to a grid. -/
theorem Grid.eq_iff {α : Type} {a b : Grid α} : a = b ↔ a.shape = b.shape ∧ a.cells = b.cells := by
  cases a
  cases b
  rw [Grid.mk.injEq]

/-- Grids of one shape have as many cells. -/
theorem Grid.length_cells_eq {α : Type} {a b : Grid α} (h : a.shape = b.shape) : a.cells.length = b.cells.length := by
  rw [a.length_cells, b.length_cells, h]

namespace Metric

theorem between_eq_undefined_iff {α : Type} [Measured α] (m : Metric) {a b : Grid α} :
    m.between a b = .undefined ↔ a.shape ≠ b.shape := by
  rw [between]
  split_ifs with h
  · refine iff_of_false ?_ (not_not_intro h)
    intro hvalue
    cases hvalue
  · exact iff_of_true rfl h

/-- Arrays of numbers have a distance, and it is the one of what cannot be compared exactly if their shapes differ. -/
theorem exists_ofData (m : Metric) {a b : Datum} {s t : List Nat} (ha : IsArray a s) (hb : IsArray b t) :
    ∃ d, m.ofData a b = .ok d ∧ (d = .undefined ↔ s ≠ t) := by
  obtain ⟨first, hfirst, rfl⟩ := ha.exists_grid
  obtain ⟨second, hsecond, rfl⟩ := hb.exists_grid
  refine ⟨m.between first second, ?_, m.between_eq_undefined_iff⟩
  rw [ofData, hfirst, hsecond]
  rfl

end Metric

end RankingEval.Distance
