/-
# Equal data and equal texts

Data of one kind are equal exactly if they have one text, with one exception: the two zeros are equal doubles whose
texts differ by the sign. Data of different kinds may be equal with different texts, as a truth value and a number,
or have one text and not be equal, as a number and its numeral.
-/

import Mathlib
import RankingEval.Datum.Shown
import RankingEval.Proofs.Datum.Order
import RankingEval.Proofs.Number.NaturalText

namespace RankingEval

open RankingEval.Number

namespace Number

theorem ofFloat_zero : Binary64.ofFloat 0.0 = .finite ⟨false, 0, -1074, false⟩ := by decide +kernel

theorem ofFloat_negZero : Binary64.ofFloat (-0.0) = .finite ⟨true, 0, -1074, false⟩ := by decide +kernel

/-- A double without mantissa is one of the zeros. -/
theorem eq_zero_or_eq_negZero {x : Float} {d : Dyadic} (hx : Binary64.ofFloat x = .finite d)
    (hd : d.mantissa = 0) : x = 0.0 ∨ x = -0.0 := by
  have hlegal : d.Legal := legal_of_ofBits hx
  have hexponent : d.exponent = -1074 := by
    have := hlegal.full
    omega
  obtain ⟨negative, mantissa, exponent, narrow⟩ := d
  obtain rfl : mantissa = 0 := hd
  obtain rfl : exponent = -1074 := hexponent
  obtain rfl : narrow = false := by
    rw [Bool.eq_false_iff, ne_eq, hlegal.narrow_iff]
    exact fun h => absurd h.1 (lt_irrefl _)
  cases negative with
  | false => exact .inl (ofFloat_injective (hx.trans ofFloat_zero.symm))
  | true => exact .inr (ofFloat_injective (hx.trans ofFloat_negZero.symm))

/-- Different doubles of one value are the two zeros. -/
theorem eq_or_zero_of_toRat_eq {x y : Float} {d e : Dyadic} (hx : Binary64.ofFloat x = .finite d)
    (hy : Binary64.ofFloat y = .finite e) (h : d.toRat = e.toRat) :
    x = y ∨ (x = 0.0 ∨ x = -0.0) ∧ (y = 0.0 ∨ y = -0.0) := by
  by_cases hd : d.mantissa = 0
  · by_cases he : e.mantissa = 0
    · exact .inr ⟨eq_zero_or_eq_negZero hx hd, eq_zero_or_eq_negZero hy he⟩
    · have hsame := Dyadic.eq_of_toRat_eq (legal_of_ofBits hy) (legal_of_ofBits hx) he h.symm
      exact .inl (ofFloat_injective (hx.trans (hsame ▸ hy.symm)))
  · have hsame := Dyadic.eq_of_toRat_eq (legal_of_ofBits hx) (legal_of_ofBits hy) hd h
    exact .inl (ofFloat_injective (hx.trans (hsame ▸ hy.symm)))

end Number

namespace Datum

/-- Data with keys are equal exactly if their keys are. -/
theorem sameScalar_iff {a b : Datum} (ha : a.key?.isSome = true) : a.sameScalar b = true ↔ a.key? = b.key? := by
  obtain ⟨k, hk⟩ := Option.isSome_iff_exists.mp ha
  rw [sameScalar, hk]
  cases b.key? with
  | none => exact iff_of_false Bool.false_ne_true (Option.some_ne_none k)
  | some l => rw [beq_iff_eq, Option.some.injEq]

theorem sameScalar_comm (a b : Datum) : a.sameScalar b = b.sameScalar a := by
  rw [sameScalar, sameScalar]
  cases a.key? <;> cases b.key? <;> first | rfl | exact BEq.comm

/-- Equal data are equal to the same data. -/
theorem sameScalar_eq_of_same {a b : Datum} (h : a.sameScalar b = true) : a.sameScalar = b.sameScalar := by
  funext c
  rw [Bool.eq_iff_iff]
  exact ⟨sameScalar_trans (sameScalar_comm a b ▸ h), sameScalar_trans h⟩

/-- Among some data, those are equal that have one text, and no others. -/
def TextsTell (data : List Datum) : Prop :=
  ∀ a ∈ data, ∀ b ∈ data, a.sameScalar b = true ↔ a.asText = b.asText

theorem sameScalar_int (m n : ℤ) : (int m).sameScalar (int n) = true ↔ (int m).asText = (int n).asText := by
  have htext : (int m).asText = (int n).asText ↔ m = n := by
    simp only [asText, shown]
    exact Int.repr_inj
  rw [htext, sameScalar_iff rfl, key?, key?, Option.some.injEq, Key.number.injEq, Int.cast_inj]

theorem sameScalar_bool (b c : Bool) : (bool b).sameScalar (bool c) = true ↔ (bool b).asText = (bool c).asText := by
  cases b <;> cases c <;> decide

theorem sameScalar_text (s t : String) : (text s).sameScalar (text t) = true ↔ (text s).asText = (text t).asText := by
  rw [sameScalar_iff rfl, key?, key?, Option.some.injEq, Key.text.injEq, asText, asText]

/-- Doubles are equal that have one text, and besides these the zeros are. -/
theorem sameScalar_float {x y : Float} (hx : x.isNaN = false) (hzeros : ¬(x = 0.0 ∧ y = -0.0 ∨ x = -0.0 ∧ y = 0.0)) :
    (float x).sameScalar (float y) = true ↔ (float x).asText = (float y).asText := by
  have htext : (float x).asText = (float y).asText ↔ x = y := by
    simp only [asText, shown]
    exact text_injective.eq_iff
  rw [htext, sameScalar_iff (isSome_key?_float x)]
  refine ⟨fun h => ?_, fun h => h ▸ rfl⟩
  rw [key?, key?] at h
  cases hxs : Binary64.ofFloat x with
  | nan =>
      rw [ofFloat_eq_nan_iff.mp hxs] at hx
      cases hx
  | infinite negative =>
      rw [hxs] at h
      cases hys : Binary64.ofFloat y <;> rw [hys] at h
      case infinite other =>
        cases h
        exact ofFloat_injective (hxs.trans hys.symm)
      all_goals cases h
  | finite d =>
      rw [hxs] at h
      cases hys : Binary64.ofFloat y <;> rw [hys] at h
      case finite e =>
        rcases eq_or_zero_of_toRat_eq hxs hys (Key.number.inj (Option.some.inj h)) with
          hsame | ⟨rfl | rfl, rfl | rfl⟩
        · exact hsame
        · rfl
        · exact absurd (.inl ⟨rfl, rfl⟩) hzeros
        · exact absurd (.inr ⟨rfl, rfl⟩) hzeros
        · rfl
      all_goals cases h

end Datum

end RankingEval
