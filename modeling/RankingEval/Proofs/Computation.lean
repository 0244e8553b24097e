/-
# Computations on a state

A computation that may fail goes on from the state that the one before it left, or stops there when that
one failed. Many computations only look something up: what they give is already settled by a property of
the state, and they keep that property. Such readings compose like the values that they give.
-/

import Mathlib.Data.List.Forall2

namespace RankingEval

variable {ε σ α β : Type}

/-! ## Composition -/

section Composition

variable {act : ExceptT ε (StateM σ) α} {next : α → ExceptT ε (StateM σ) β} {s t : σ}

theorem run_bind_of_ok {value : α} (h : act.run.run s = (.ok value, t)) :
    (act >>= next).run.run s = (next value).run.run t := by
  rw [ExceptT.run_bind, StateT.run_bind, h]
  rfl

theorem run_bind_of_error {failure : ε} (h : act.run.run s = (.error failure, t)) :
    (act >>= next).run.run s = (.error failure, t) := by
  rw [ExceptT.run_bind, StateT.run_bind, h]
  rfl

/-- Reading what is there leaves the state as it is. -/
theorem run_lift_of_ok {read : Except ε α} {value : α} (h : read = .ok value) :
    (liftM read : ExceptT ε (StateM σ) α).run.run s = (.ok value, s) := by
  rw [h]
  rfl

/-- Where doing something for one item after the other fails, it fails for one of them. -/
theorem exists_of_run_forM_eq_error {f : α → ExceptT ε (StateM σ) PUnit} {items : List α} {failure : ε}
    (h : (items.forM f).run.run s = (.error failure, t)) :
    ∃ item ∈ items, ∃ u, (f item).run.run u = (.error failure, t) := by
  induction items generalizing s with
  | nil => cases h
  | cons item items ih =>
      rcases hitem : (f item).run.run s with ⟨other | _, u⟩
      · rw [List.forM, run_bind_of_error hitem] at h
        exact ⟨item, List.mem_cons_self, s, hitem.trans h⟩
      · rw [List.forM, run_bind_of_ok hitem] at h
        obtain ⟨next, hnext, hfails⟩ := ih h
        exact ⟨next, List.mem_cons_of_mem item hnext, hfails⟩

variable {handler : ε → ExceptT ε (StateM σ) α}

private theorem run_tryCatch : (tryCatch act handler).run.run s =
    ((match (act.run.run s).1 with
      | .ok a => pure (.ok a)
      | .error failure => (handler failure).run : StateM σ (Except ε α)).run (act.run.run s).2) := rfl

/-- Nothing is caught from what succeeds. -/
theorem run_tryCatch_of_ok {value : α} (h : act.run.run s = (.ok value, t)) :
    (tryCatch act handler).run.run s = (.ok value, t) := by
  rw [run_tryCatch, h]
  rfl

/-- What fails is handled in the state in which it failed. -/
theorem run_tryCatch_of_error {failure : ε} (h : act.run.run s = (.error failure, t)) :
    (tryCatch act handler).run.run s = (handler failure).run.run t := by
  rw [run_tryCatch, h]

end Composition

/-! ## Readings -/

/-- On the states with some property, a computation gives one value and keeps the property. -/
def Reads (kept : σ → Prop) (act : ExceptT ε (StateM σ) α) (value : Except ε α) : Prop :=
  ∀ s, kept s → (act.run.run s).1 = value ∧ kept (act.run.run s).2

namespace Reads

variable {kept : σ → Prop} {act : ExceptT ε (StateM σ) α} {value : Except ε α}

protected theorem pure (a : α) : Reads kept (pure a : ExceptT ε (StateM σ) α) (.ok a) :=
  fun _ hs => ⟨rfl, hs⟩

/-- What depends on the state only through a settled value reads what it reads at that value. -/
protected theorem get (read : σ → β) (next : β → ExceptT ε (StateM σ) α) {seen : β}
    (hread : ∀ s, kept s → read s = seen) (hnext : Reads kept (next seen) value) :
    Reads kept (do next (read (← get))) value := by
  intro s hs
  have hrun : (do next (read (← get)) : ExceptT ε (StateM σ) α).run.run s =
      (next (read s)).run.run s := rfl
  rw [hrun, hread s hs]
  exact hnext s hs

protected theorem bind {next : α → ExceptT ε (StateM σ) β} {values : α → Except ε β}
    (hact : Reads kept act value) (hnext : ∀ a, Reads kept (next a) (values a)) :
    Reads kept (act >>= next) (value >>= values) := by
  intro s hs
  obtain ⟨hvalue, hkept⟩ := hact s hs
  rcases hrun : act.run.run s with ⟨outcome, t⟩
  rw [hrun] at hvalue hkept
  subst hvalue
  cases outcome with
  | ok a =>
      rw [run_bind_of_ok hrun]
      exact hnext a t hkept
  | error failure =>
      rw [run_bind_of_error hrun]
      exact ⟨rfl, hkept⟩

protected theorem map (g : α → β) (hact : Reads kept act value) :
    Reads kept (do return g (← act)) (value.map g) := by
  have hmap : value.map g = value >>= fun a => .ok (g a) := by cases value <;> rfl
  rw [hmap]
  exact hact.bind fun a => .pure (g a)

protected theorem mapM {f : β → ExceptT ε (StateM σ) α} {values : β → Except ε α}
    (h : ∀ b, Reads kept (f b) (values b)) (bs : List β) :
    Reads kept (bs.mapM f) (bs.mapM values) := by
  induction bs with
  | nil => exact .pure []
  | cons b bs ih =>
      rw [List.mapM_cons, List.mapM_cons]
      exact (h b).bind fun a => ih.bind fun as => .pure (a :: as)

protected theorem foldlM {f : β → α → ExceptT ε (StateM σ) β} {values : β → α → Except ε β}
    (h : ∀ b a, Reads kept (f b a) (values b a)) (as : List α) (b : β) :
    Reads kept (as.foldlM f b) (as.foldlM values b) := by
  induction as generalizing b with
  | nil => exact .pure b
  | cons a as ih =>
      rw [List.foldlM_cons, List.foldlM_cons]
      exact (h b a).bind ih

end Reads

/-! ## Sequences of values -/

theorem exists_of_isOk {value : Except ε α} (h : value.isOk = true) : ∃ a, value = .ok a := by
  cases value with
  | error failure => cases h
  | ok a => exact ⟨a, rfl⟩

/-- Where a test is passed, there is a value that passes it. -/
theorem exists_of_any {value : Except ε α} {test : α → Bool} (h : value.toOption.any test = true) :
    ∃ a, value = .ok a ∧ test a = true := by
  cases value with
  | error failure => cases h
  | ok a => exact ⟨a, rfl, h⟩

theorem ne_ok_nil_of_any {value : Except ε (List α)} (h : value.toOption.any (!·.isEmpty) = true) :
    value ≠ .ok [] := by
  rintro rfl
  cases h

/-- A sequence succeeds if each of its parts does. -/
theorem bind_eq_ok_iff {value : Except ε α} {next : α → Except ε β} {b : β} :
    value >>= next = .ok b ↔ ∃ a, value = .ok a ∧ next a = .ok b := by
  cases value with
  | error failure =>
      constructor
      · rintro ⟨⟩
      · rintro ⟨a, ⟨⟩, -⟩
  | ok a =>
      constructor
      · intro h
        exact ⟨a, rfl, h⟩
      · rintro ⟨_, ⟨⟩, h⟩
        exact h

/-- A sequence fails where its first part does, or where the second does after it. -/
theorem bind_eq_error_iff {value : Except ε α} {next : α → Except ε β} {failure : ε} :
    value >>= next = .error failure ↔
      value = .error failure ∨ ∃ a, value = .ok a ∧ next a = .error failure := by
  cases value with
  | error other =>
      constructor
      · rintro ⟨⟩
        exact .inl rfl
      · rintro (⟨⟨⟩⟩ | ⟨a, ⟨⟩, -⟩)
        rfl
  | ok a =>
      constructor
      · intro h
        exact .inr ⟨a, rfl, h⟩
      · rintro (⟨⟨⟩⟩ | ⟨_, ⟨⟩, h⟩)
        exact h

/-- Reading one item after the other succeeds when every reading does. -/
theorem mapM_eq_ok_iff {read : α → Except ε β} {items : List α} {results : List β} :
    items.mapM read = .ok results ↔
      List.Forall₂ (fun item result => read item = .ok result) items results := by
  induction items generalizing results with
  | nil =>
      rw [List.mapM_nil, List.forall₂_nil_left_iff]
      constructor
      · rintro ⟨⟩
        rfl
      · rintro rfl
        rfl
  | cons item items ih =>
      rw [List.mapM_cons, List.forall₂_cons_left_iff]
      cases hitem : read item with
      | error failure =>
          constructor
          · rintro ⟨⟩
          · rintro ⟨result, others, himpossible, -⟩
            cases himpossible
      | ok result =>
          cases hitems : items.mapM read with
          | error failure =>
              constructor
              · rintro ⟨⟩
              · rintro ⟨other, others, -, hothers, -⟩
                rw [← ih, hitems] at hothers
                cases hothers
          | ok others =>
              constructor
              · rintro ⟨⟩
                exact ⟨result, others, rfl, ih.mp hitems, rfl⟩
              · rintro ⟨other, rest, hother, hrest, rfl⟩
                cases hother
                rw [← ih, hitems] at hrest
                cases hrest
                rfl

theorem exists_of_mapM_eq_ok {read : α → Except ε β} {items : List α} {results : List β}
    (h : items.mapM read = .ok results) {item : α} (hitem : item ∈ items) :
    ∃ result ∈ results, read item = .ok result := by
  induction mapM_eq_ok_iff.mp h with
  | nil => cases hitem
  | cons hfirst hrest ih =>
      rcases List.mem_cons.mp hitem with rfl | hlater
      · exact ⟨_, List.mem_cons_self, hfirst⟩
      · obtain ⟨result, hresult, hread⟩ := ih (mapM_eq_ok_iff.mpr hrest) hlater
        exact ⟨result, List.mem_cons_of_mem _ hresult, hread⟩

theorem exists_of_mem_mapM {read : α → Except ε β} {items : List α} {results : List β}
    (h : items.mapM read = .ok results) {result : β} (hresult : result ∈ results) :
    ∃ item ∈ items, read item = .ok result := by
  induction mapM_eq_ok_iff.mp h with
  | nil => cases hresult
  | cons hfirst hrest ih =>
      rcases List.mem_cons.mp hresult with rfl | hlater
      · exact ⟨_, List.mem_cons_self, hfirst⟩
      · obtain ⟨item, hitem, hread⟩ := ih (mapM_eq_ok_iff.mpr hrest) hlater
        exact ⟨item, List.mem_cons_of_mem _ hitem, hread⟩

/-- Where reading one item after the other fails, the reading of one of them does. -/
theorem exists_of_mapM_eq_error {read : α → Except ε β} {items : List α} {failure : ε}
    (h : items.mapM read = .error failure) : ∃ item ∈ items, read item = .error failure := by
  induction items with
  | nil => cases h
  | cons item items ih =>
      rw [List.mapM_cons] at h
      rcases bind_eq_error_iff.mp h with hitem | ⟨result, -, hrest⟩
      · exact ⟨item, List.mem_cons_self, hitem⟩
      · rcases bind_eq_error_iff.mp hrest with hitems | ⟨results, -, ⟨⟩⟩
        obtain ⟨other, hother, hread⟩ := ih hitems
        exact ⟨other, List.mem_cons_of_mem item hother, hread⟩

/-- Whether a reading of every item succeeds, whatever is read. -/
theorem isOk_mapM (read : α → Except ε β) (items : List α) :
    (items.mapM read).isOk = items.all fun item => (read item).isOk := by
  induction items with
  | nil => rfl
  | cons item items ih =>
      rw [List.mapM_cons, List.all_cons, ← ih]
      cases read item with
      | error failure => rfl
      | ok result => cases items.mapM read <;> rfl

theorem isOk_map (value : Except ε α) (f : α → β) : (value.map f).isOk = value.isOk := by
  cases value <;> rfl

theorem exists_of_map_eq_ok {value : Except ε α} {f : α → β} {b : β} (h : value.map f = .ok b) :
    ∃ a, value = .ok a ∧ b = f a := by
  cases value with
  | error failure => cases h
  | ok a =>
      cases h
      exact ⟨a, rfl, rfl⟩

theorem map_except_map {γ : Type} (value : Except ε α) (f : α → β) (g : β → γ) :
    (value.map f).map g = value.map (g ∘ f) := by
  cases value <;> rfl

theorem mapM_except_map {γ : Type} (f : α → Except ε β) (g : β → γ) (as : List α) :
    as.mapM (fun a => (f a).map g) = (as.mapM f).map (List.map g) := by
  induction as with
  | nil => rfl
  | cons a as ih =>
      rw [List.mapM_cons, List.mapM_cons, ih]
      cases f a with
      | error failure => rfl
      | ok b => cases as.mapM f <;> rfl

/-- A fold that looks up a value for every element folds over the values, once all of them are known. -/
theorem foldlM_except_map {γ : Type} (f : α → Except ε β) (g : γ → β → γ) (as : List α) (c : γ) :
    as.foldlM (fun c a => (f a).map (g c)) c = (as.mapM f).map (List.foldl g c) := by
  induction as generalizing c with
  | nil => rfl
  | cons a as ih =>
      rw [List.foldlM_cons, List.mapM_cons]
      cases f a with
      | error failure => rfl
      | ok b =>
          refine (ih (g c b)).trans ?_
          cases as.mapM f <;> rfl

end RankingEval
