/-
# Arrangements of rows

A column arranges the rows of a table: rows with a value come in the order of their values, rows without one
come last, and rows between which the values do not decide stay in the order of the table. Scores and positions
arrange rows in the same way, only with different orders.
-/

import Mathlib
import RankingEval.Proofs.Datum.Order
import RankingEval.Proofs.Ranking.ScoreOrder

namespace RankingEval.Ranking

variable {α β γ : Type}

/-! ## Sorting by places -/

/-- Among items that stand in the order of their tags, a sort keeps those in order that it does not tell apart. -/
theorem pairwise_mergeSort_tagged {le : γ → γ → Bool}
    (htrans : ∀ a b c, le a b = true → le b c = true → le a c = true)
    (htotal : ∀ a b, (le a b || le b a) = true) {tag : γ → ℕ} {l : List γ}
    (htags : l.Pairwise fun a b => tag a < tag b) :
    (l.mergeSort le).Pairwise fun a b => le a b = true ∧ (le b a = true → tag a < tag b) := by
  have hsorted := List.pairwise_mergeSort (List.zipIdxLE_trans htrans) (List.zipIdxLE_total htotal)
    l.zipIdx
  have hperm := List.mergeSort_perm l.zipIdx (List.zipIdxLE le)
  have hplaces : (l.zipIdx.mergeSort (List.zipIdxLE le)).Pairwise fun s t => s.2 ≠ t.2 :=
    List.pairwise_map.mp ((hperm.map Prod.snd).nodup_iff.mpr (List.nodup_zipIdx_map_snd l))
  rw [← List.mergeSort_zipIdx, List.pairwise_map]
  refine (hsorted.and hplaces).imp_of_mem fun {s t} hs ht hst => ?_
  rw [hperm.mem_iff, List.mem_zipIdx_iff_getElem?, List.getElem?_eq_some_iff] at hs ht
  obtain ⟨hs, hs'⟩ := hs
  obtain ⟨ht, ht'⟩ := ht
  obtain ⟨hle, hne⟩ := hst
  rw [List.zipIdxLE] at hle
  split_ifs at hle with hab hba
  · refine ⟨hab, fun _ => ?_⟩
    have hlt := List.pairwise_iff_getElem.mp htags s.2 t.2 hs ht
      (lt_of_le_of_ne (of_decide_eq_true hle) hne)
    rwa [hs', ht'] at hlt
  · exact ⟨hab, fun h => absurd h hba⟩

/-- The items need to be in an order only with each other. -/
theorem pairwise_mergeSort_of_mem {le : γ → γ → Bool} {l : List γ}
    (htrans : ∀ a ∈ l, ∀ b ∈ l, ∀ c ∈ l, le a b = true → le b c = true → le a c = true)
    (htotal : ∀ a ∈ l, ∀ b ∈ l, (le a b || le b a) = true) {tag : γ → ℕ}
    (htags : l.Pairwise fun a b => tag a < tag b) :
    (l.mergeSort le).Pairwise fun a b => le a b = true ∧ (le b a = true → tag a < tag b) := by
  have hattach : (l.attach.mergeSort fun a b => le a.1 b.1).map Subtype.val = l.mergeSort le := by
    rw [List.map_mergeSort (s := le) fun _ _ _ _ => rfl, List.attach_map_subtype_val]
  rw [← hattach, List.pairwise_map]
  refine @pairwise_mergeSort_tagged { item // item ∈ l } (fun a b => le a.1 b.1)
    (fun a b c => htrans a a.2 b b.2 c c.2) (fun a b => htotal a a.2 b b.2) (fun a => tag a.1) l.attach ?_
  rw [← List.pairwise_map (f := Subtype.val) (R := fun a b => tag a < tag b), List.attach_map_subtype_val]
  exact htags

/-- An order of the values that are there: what they are compared by is transitive and total. -/
structure Orders (missing : β → Bool) (le : β → β → Bool) (values : List β) : Prop where
  trans : ∀ a ∈ values, ∀ b ∈ values, ∀ c ∈ values, missing a = false → missing b = false →
    missing c = false → le a b = true → le b c = true → le a c = true
  total : ∀ a ∈ values, ∀ b ∈ values, missing a = false → missing b = false →
    (le a b || le b a) = true

/-- One row comes before another one, by the values at their places. -/
def Precedes (missing : β → Bool) (le : β → β → Bool) (values : List β) (i j : ℕ) : Prop :=
  ∀ a b, values[i]? = some a → values[j]? = some b →
    if missing b then missing a = true → i < j
    else missing a = false ∧ le a b = true ∧ (le b a = true → i < j)

/-- Places are those of all rows, in the order in which the values arrange them. -/
structure Arranges (missing : β → Bool) (le : β → β → Bool) (values : List β) (places : List ℕ) : Prop where
  perm : places.Perm (List.range values.length)
  order : places.Pairwise (Precedes missing le values)

/-- Rows sorted by their values, and the rows without a value behind them. -/
def arranged (missing : β → Bool) (le : β → β → Bool) (rows : List (α × β)) : List (α × β) :=
  ((rows.filter fun row => !missing row.2).mergeSort fun a b => le a.2 b.2) ++
    rows.filter fun row => missing row.2

variable {missing : β → Bool} {le : β → β → Bool} {rows : List (α × β)}

/-- The rows with their places, in the order in which they are arranged. -/
def arrangedPlaces (missing : β → Bool) (le : β → β → Bool) (rows : List (α × β)) : List ((α × β) × ℕ) :=
  ((rows.zipIdx.filter fun entry => !missing entry.1.2).mergeSort fun s t => le s.1.2 t.1.2) ++
    rows.zipIdx.filter fun entry => missing entry.1.2

theorem map_fst_arrangedPlaces (missing : β → Bool) (le : β → β → Bool) (rows : List (α × β)) :
    (arrangedPlaces missing le rows).map Prod.fst = arranged missing le rows := by
  have hfilter (p : β → Bool) : (rows.zipIdx.filter fun entry => p entry.1.2).map Prod.fst =
      rows.filter fun row => p row.2 := by
    conv_rhs => rw [← List.zipIdx_map_fst 0 rows, List.filter_map]
    rfl
  rw [arrangedPlaces, List.map_append, hfilter, arranged, ← hfilter fun value => !missing value]
  congr 1
  exact List.map_mergeSort fun _ _ _ _ => rfl

theorem arrangedPlaces_perm (missing : β → Bool) (le : β → β → Bool) (rows : List (α × β)) :
    (arrangedPlaces missing le rows).Perm rows.zipIdx := by
  have hsplit := List.filter_append_perm (fun entry : (α × β) × ℕ => !missing entry.1.2) rows.zipIdx
  simp only [Bool.not_not] at hsplit
  exact ((List.mergeSort_perm _ _).append_right _).trans hsplit

theorem pairwise_zipIdx (rows : List γ) : rows.zipIdx.Pairwise fun s t => s.2 < t.2 := by
  have hplaces : (rows.zipIdx.map Prod.snd).Pairwise (· < ·) := by
    rw [List.zipIdx_map_snd]
    exact List.pairwise_lt_range'
  exact List.pairwise_map.mp hplaces

theorem pairwise_arrangedPlaces (h : Orders missing le (rows.map Prod.snd)) :
    (arrangedPlaces missing le rows).Pairwise fun s t =>
      if missing t.1.2 then missing s.1.2 = true → s.2 < t.2
      else missing s.1.2 = false ∧ le s.1.2 t.1.2 = true ∧ (le t.1.2 s.1.2 = true → s.2 < t.2) := by
  let present := rows.zipIdx.filter fun entry => !missing entry.1.2
  have hpresent : ∀ entry ∈ present, missing entry.1.2 = false := by
    intro entry hentry
    simpa using (List.mem_filter.mp hentry).2
  have hvalue : ∀ entry ∈ present, entry.1.2 ∈ rows.map Prod.snd := by
    intro entry hentry
    have hrow := List.mem_map_of_mem (f := Prod.fst) (List.mem_of_mem_filter hentry)
    rw [List.zipIdx_map_fst] at hrow
    exact List.mem_map_of_mem hrow
  have hsorted : (present.mergeSort fun s t => le s.1.2 t.1.2).Pairwise fun s t =>
      le s.1.2 t.1.2 = true ∧ (le t.1.2 s.1.2 = true → s.2 < t.2) := by
    apply pairwise_mergeSort_of_mem
    · exact fun a ha b hb c hc => h.trans _ (hvalue a ha) _ (hvalue b hb) _ (hvalue c hc) (hpresent a ha)
        (hpresent b hb) (hpresent c hc)
    · exact fun a ha b hb => h.total _ (hvalue a ha) _ (hvalue b hb) (hpresent a ha) (hpresent b hb)
    · exact (pairwise_zipIdx rows).filter _
  rw [arrangedPlaces, List.pairwise_append]
  refine ⟨?_, ?_, ?_⟩
  · refine hsorted.imp_of_mem fun {s t} hs ht hst => ?_
    rw [List.mem_mergeSort] at hs ht
    rw [hpresent t ht, if_neg Bool.false_ne_true]
    exact ⟨hpresent s hs, hst⟩
  · refine ((pairwise_zipIdx rows).filter _).imp_of_mem fun {s t} _ ht hst => ?_
    rw [if_pos (List.mem_filter.mp ht).2]
    exact fun _ => hst
  · intro s hs t ht
    rw [List.mem_mergeSort] at hs
    rw [if_pos (List.mem_filter.mp ht).2, hpresent s hs]
    exact fun hmissing => absurd hmissing Bool.false_ne_true

/-- Rows are arranged by their values, each of them once. -/
theorem exists_places (h : Orders missing le (rows.map Prod.snd)) :
    ∃ places, Arranges missing le (rows.map Prod.snd) places ∧
      (arranged missing le rows).map some = places.map fun place => rows[place]? := by
  have hperm := arrangedPlaces_perm missing le rows
  have hrow : ∀ entry ∈ arrangedPlaces missing le rows, rows[entry.2]? = some entry.1 := by
    intro entry hentry
    exact List.mem_zipIdx_iff_getElem?.mp (hperm.mem_iff.mp hentry)
  refine ⟨(arrangedPlaces missing le rows).map Prod.snd, ⟨?_, ?_⟩, ?_⟩
  · have hplaces := hperm.map Prod.snd
    rwa [List.zipIdx_map_snd, ← List.range_eq_range', ← List.length_map Prod.snd] at hplaces
  · rw [List.pairwise_map]
    refine (pairwise_arrangedPlaces h).imp_of_mem fun {s t} hs ht hst => ?_
    intro a b ha hb
    rw [List.getElem?_map, hrow s hs] at ha
    rw [List.getElem?_map, hrow t ht] at hb
    cases ha
    cases hb
    exact hst
  · rw [← map_fst_arrangedPlaces, List.map_map, List.map_map]
    exact List.map_congr_left fun entry hentry => (hrow entry hentry).symm

/-! ## Scores and cells -/

theorem orders_of_ranks {δ : Type} [LinearOrder δ] {ascending : Bool} {rank : Float → δ}
    (hranks : Ranks ascending rank) (values : List Float) :
    Orders (·.isNaN) (inOrder ascending) values where
  trans a _ b _ c _ ha hb hc hab hbc := by
    rw [hranks.inOrder_iff ha hb] at hab
    rw [hranks.inOrder_iff hb hc] at hbc
    rw [hranks.inOrder_iff ha hc]
    exact hab.trans hbc
  total a _ b _ ha hb := by
    rw [Bool.or_eq_true, hranks.inOrder_iff ha hb, hranks.inOrder_iff hb ha]
    exact le_total _ _

/-- Scores are in order in either direction, NaN aside. -/
theorem orders_scores (ascending : Bool) (values : List Float) :
    Orders (·.isNaN) (inOrder ascending) values := by
  cases ascending with
  | false => exact orders_of_ranks ranks_reverse_standing values
  | true => exact orders_of_ranks ranks_standing values

theorem sortedByScore_eq_arranged (ascending : Bool) (rows : List (α × Float)) :
    sortedByScore ascending rows = arranged (·.isNaN) (inOrder ascending) rows := rfl

/-- A cell may stand before another one. -/
def cellLE (a b : Datum) : Bool := a.compare? b != some .gt

theorem cellLE_iff {a b : Datum} : cellLE a b = true ↔ a.NoHigher b := by
  rw [cellLE, bne_iff_ne, Datum.NoHigher]

/-- The cells that are there can all be compared with each other. -/
def Comparable (cells : List Datum) : Prop :=
  ∀ a ∈ cells, ∀ b ∈ cells, a.isMissing = false → b.isMissing = false → (a.compare? b).isSome = true

instance (cells : List Datum) : Decidable (Comparable cells) :=
  inferInstanceAs (Decidable (∀ a ∈ cells, ∀ b ∈ cells,
    a.isMissing = false → b.isMissing = false → (a.compare? b).isSome = true))

/-- Cells that can be compared are in order. -/
theorem orders_cells {cells : List Datum} (h : Comparable cells) : Orders Datum.isMissing cellLE cells := by
  have hmeet : ∀ a ∈ cells, ∀ b ∈ cells, a.isMissing = false → b.isMissing = false → a.Meet b :=
    fun a ha b hb hpa hpb => ⟨h a ha b hb hpa hpb, h b hb a ha hpb hpa⟩
  constructor
  · intro a ha b hb c hc hpa hpb hpc hab hbc
    rw [cellLE_iff] at hab hbc ⊢
    exact Datum.noHigher_trans (hmeet a ha b hb hpa hpb) (hmeet b hb c hc hpb hpc)
      (hmeet a ha c hc hpa hpc) hab hbc
  · intro a ha b hb hpa hpb
    rw [Bool.or_eq_true, cellLE_iff, cellLE_iff]
    exact Datum.noHigher_or (hmeet a ha b hb hpa hpb)

theorem comparableInRow_of_forall {cells : List Datum}
    (h : ∀ a ∈ cells, ∀ b ∈ cells, (a.compare? b).isSome = true) : comparableInRow cells = true := by
  induction cells with
  | nil => rfl
  | cons a cells ih =>
      cases cells with
      | nil => rfl
      | cons b cells =>
          rw [comparableInRow, Bool.and_eq_true]
          refine ⟨h a List.mem_cons_self b (by simp), ih fun c hc d hd => ?_⟩
          exact h c (List.mem_cons_of_mem a hc) d (List.mem_cons_of_mem a hd)

/-- Rows whose cells can be compared are sorted, and so are arranged by them. -/
theorem sortedByCell_eq_arranged {rows : List (α × Datum)} (h : Comparable (rows.map Prod.snd)) :
    sortedByCell rows = .ok (arranged Datum.isMissing cellLE rows) := by
  have hrow : comparableInRow (((rows.filter fun row => !row.2.isMissing).mergeSort fun a b =>
      a.2.compare? b.2 != some .gt).map (·.2)) = true := by
    apply comparableInRow_of_forall
    intro a ha b hb
    obtain ⟨row, hrow, rfl⟩ := List.mem_map.mp ha
    obtain ⟨other, hother, rfl⟩ := List.mem_map.mp hb
    rw [List.mem_mergeSort, List.mem_filter, Bool.not_eq_true'] at hrow hother
    exact h _ (List.mem_map_of_mem hrow.1) _ (List.mem_map_of_mem hother.1) hrow.2 hother.2
  rw [sortedByCell, if_pos hrow]
  rfl

end RankingEval.Ranking
