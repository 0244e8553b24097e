/-
# Grids of numbers

A grid is a rectangular array of numbers of any number of dimensions, kept as its shape and its cells in
row order. It is read from nested sequences, which must not be ragged: then there are as many numbers as
the shape has room for (`length_leaves`).
-/

import RankingEval.Datum.Numeric

namespace RankingEval.Distance

/-- The number of cells of a shape. -/
def volume (shape : List Nat) : Nat := shape.foldr (· * ·) 1

/-- A rectangular array. -/
structure Grid (α : Type) where
  /-- The extent in each dimension. -/
  shape : List Nat
  /-- The cells in row order. -/
  cells : List α
  /-- There are as many cells as the shape has room for. -/
  length_cells : cells.length = volume shape

mutual

/-- The shape of nested sequences, unless they are ragged. -/
def shapeOf? : Datum → Option (List Nat)
  | .list [] => some [0]
  | .list (first :: rest) =>
    match shapeOf? first with
    | some shape => if haveShape shape rest then some ((rest.length + 1) :: shape) else none
    | none => none
  | _ => some []

/-- All items have one shape. -/
def haveShape (shape : List Nat) : List Datum → Bool
  | [] => true
  | item :: rest => shapeOf? item == some shape && haveShape shape rest

end

mutual

/-- The items of nested sequences that are no sequences themselves, in order. -/
def leaves : Datum → List Datum
  | .list items => leavesOfAll items
  | d => [d]

/-- The leaves of several data, in order. -/
def leavesOfAll : List Datum → List Datum
  | [] => []
  | item :: rest => leaves item ++ leavesOfAll rest

end

mutual

/-- Nested sequences have as many leaves as their shape has room for. -/
theorem length_leaves : ∀ {d : Datum} {shape : List Nat}, shapeOf? d = some shape →
    (leaves d).length = volume shape
  | .list [], shape, h => by
    obtain rfl : [0] = shape := by simpa [shapeOf?] using h
    rfl
  | .list (first :: rest), shape, h => by
    rw [shapeOf?] at h
    split at h
    next inner hfirst =>
      split at h
      next hrest =>
        obtain rfl := Option.some.inj h
        have hhead := length_leaves hfirst
        have htail := length_leavesOfAll hrest
        simp only [leaves, leavesOfAll, List.length_append, hhead, htail, volume, List.foldr_cons]
        rw [Nat.add_mul, Nat.one_mul, Nat.add_comm]
      next => cases h
    next => cases h
  | .missing, shape, h | .bool _, shape, h | .int _, shape, h | .float _, shape, h
  | .text _, shape, h | .map _, shape, h => by
    obtain rfl : [] = shape := by simpa [shapeOf?] using h
    rfl

/-- Items of one shape have as many leaves together as there is room for in a row of that shape. -/
theorem length_leavesOfAll : ∀ {items : List Datum} {shape : List Nat},
    haveShape shape items = true → (leavesOfAll items).length = items.length * volume shape
  | [], _, _ => by simp [leavesOfAll]
  | item :: rest, shape, h => by
    rw [haveShape, Bool.and_eq_true] at h
    have hhead := length_leaves (beq_iff_eq.mp h.1)
    have htail := length_leavesOfAll h.2
    simp only [leavesOfAll, List.length_append, List.length_cons, hhead, htail]
    rw [Nat.add_mul, Nat.one_mul, Nat.add_comm]

end

/-- Reading one item after the other gives as many results as there are items. -/
theorem length_of_mapM_eq_ok {ε α β : Type} {read : α → Except ε β} {items : List α}
    {results : List β} (hread : items.mapM read = .ok results) : results.length = items.length := by
  induction items generalizing results with
  | nil =>
    cases hread
    rfl
  | cons item items ih =>
    rw [List.mapM_cons] at hread
    cases hitem : read item with
    | error failure => simp [hitem, bind, Except.bind] at hread
    | ok result =>
      cases hitems : items.mapM read with
      | error failure => simp [hitem, hitems, bind, Except.bind] at hread
      | ok others =>
        have hresults : result :: others = results := by
          simpa [hitem, hitems, bind, Except.bind, pure, Except.pure] using hread
        rw [← hresults, List.length_cons, List.length_cons, ih hitems]

/-- The grid that nested sequences of numbers stand for. -/
def Grid.ofDatum (d : Datum) : Except Failure (Grid Float) :=
  match hshape : shapeOf? d with
  | some shape =>
    match hcells : (leaves d).mapM Datum.stored with
    | .ok cells => .ok ⟨shape, cells, (length_of_mapM_eq_ok hcells).trans (length_leaves hshape)⟩
    | .error failure => .error failure
  | none => .error .unreadable

end RankingEval.Distance
