/-
# The natural text of a double

The natural text of a decimal is a numeral: digits, a point with digits behind it, an exponent. The reader of
decimal literals reads such a text to its end, and what it reads has the value of the decimal. A double has the
value of no other double's decimal, so that its text determines it; and a numeral has neither spaces nor line
feeds nor marks of a comment.
-/

import Mathlib
import RankingEval.Number.Layout
import RankingEval.Number.Literal
import RankingEval.Proofs.Number.Intervals

namespace RankingEval.Number

/-! ## Numerals -/

/-- All characters are decimal digits. -/
def AllDigits (cs : List Char) : Prop := ∀ c ∈ cs, c.isDigit = true

/-- The first character, if there is one, is no decimal digit. -/
def NoDigitFirst (cs : List Char) : Prop := ∀ c ∈ cs.head?, c.isDigit = false

/-- The text of an exponent, which may be left out. -/
inductive ScaleText : List Char → ℤ → Prop
  | none : ScaleText [] 0
  | up {ds : List Char} (digits : AllDigits ds) (ne : ds ≠ []) :
      ScaleText ('e' :: '+' :: ds) (Nat.ofDigitChars 10 ds 0)
  | down {ds : List Char} (digits : AllDigits ds) (ne : ds ≠ []) :
      ScaleText ('e' :: '-' :: ds) (-(Nat.ofDigitChars 10 ds 0 : ℕ))

/-- The places behind the point, which is left out with them. -/
def pointed (places : List Char) : List Char := if places = [] then [] else '.' :: places

/-- A text writes digits and a power of ten out as a numeral. -/
inductive Spells : List Char → ℕ → ℤ → Prop
  | mk {whole places tail : List Char} {shift : ℤ} (whole_digits : AllDigits whole) (ne : whole ≠ [])
      (place_digits : AllDigits places) (scale : ScaleText tail shift) :
      Spells (whole ++ pointed places ++ tail) (Nat.ofDigitChars 10 (whole ++ places) 0)
        (shift - places.length)

theorem AllDigits.append {ds es : List Char} (h : AllDigits ds) (h' : AllDigits es) :
    AllDigits (ds ++ es) := by
  intro c hc
  exact (List.mem_append.mp hc).elim (h c) (h' c)

theorem allDigits_toDigits (n : ℕ) : AllDigits (Nat.toDigits 10 n) := by
  intro c hc
  exact Nat.isDigit_of_mem_toDigits (by decide) (by decide) hc

theorem allDigits_zeros (n : ℕ) : AllDigits (List.replicate n '0') := by
  intro c hc
  rw [List.eq_of_mem_replicate hc]
  decide

theorem spanDigits_append {ds rest : List Char} (h : AllDigits ds) (hrest : NoDigitFirst rest) :
    spanDigits (ds ++ rest) = (Nat.ofDigitChars 10 ds 0, ds.length, rest) := by
  have hgo (value count : ℕ) : spanDigits.go value count (ds ++ rest) =
      (Nat.ofDigitChars 10 ds value, count + ds.length, rest) := by
    induction ds generalizing value count with
    | nil =>
        cases rest with
        | nil => rfl
        | cons c rest =>
            have hc : c.isDigit = false := hrest c rfl
            simp [spanDigits.go, hc]
    | cons d ds ih =>
        have hd : d.isDigit = true := h d List.mem_cons_self
        rw [List.cons_append, spanDigits.go, if_pos hd, ih fun c hc => h c (List.mem_cons_of_mem _ hc)]
        simp [Nat.ofDigitChars_cons, Nat.add_assoc, Nat.add_comm 1]
  rw [spanDigits, hgo, Nat.zero_add]

theorem ScaleText.noDigitFirst {tail : List Char} {shift : ℤ} (h : ScaleText tail shift) :
    NoDigitFirst tail := by
  cases h <;> simp [NoDigitFirst]

theorem spanDigits_of_allDigits {ds : List Char} (h : AllDigits ds) :
    spanDigits ds = (Nat.ofDigitChars 10 ds 0, ds.length, []) := by
  have hnone : NoDigitFirst [] := by simp [NoDigitFirst]
  have hrun := spanDigits_append h hnone
  rwa [List.append_nil] at hrun

/-- The reader of decimal literals reads a numeral to its end. -/
theorem Spells.spanDecimal?_eq {cs : List Char} {digits : ℕ} {exponent : ℤ} (h : Spells cs digits exponent) :
    spanDecimal? cs = some (digits, exponent, []) := by
  obtain @⟨whole, places, tail, shift, hwhole, hne, hplaces, hscale⟩ := h
  have hlength : whole.length ≠ 0 := mt List.length_eq_zero_iff.mp hne
  have hjoined : Nat.ofDigitChars 10 (whole ++ places) 0 =
      Nat.ofDigitChars 10 whole 0 * Nat.pow 10 places.length + Nat.ofDigitChars 10 places 0 := by
    rw [Nat.ofDigitChars_append, Nat.ofDigitChars_eq_ofDigitChars_zero, Nat.mul_comm]
    rfl
  rw [pointed, spanDecimal?]
  split_ifs with hpoint
  · subst hpoint
    rw [List.append_nil, spanDigits_append hwhole hscale.noDigitFirst]
    cases hscale with
    | none => simp [hlength]
    | up hds hne' => simp [hlength, spanDigits_of_allDigits hds, hne']
    | down hds hne' => simp [hlength, spanDigits_of_allDigits hds, hne']
  · have hfirst : NoDigitFirst ('.' :: (places ++ tail)) := by simp [NoDigitFirst]
    rw [List.append_assoc, List.cons_append, spanDigits_append hwhole hfirst]
    simp only [spanDigits_append hplaces hscale.noDigitFirst, hjoined]
    cases hscale with
    | none => simp [hlength]
    | up hds hne' => simp [hlength, spanDigits_of_allDigits hds, hne']
    | down hds hne' => simp [hlength, spanDigits_of_allDigits hds, hne']

/-- A numeral starts with a digit. -/
theorem Spells.exists_digit {cs : List Char} {digits : ℕ} {exponent : ℤ} (h : Spells cs digits exponent) :
    ∃ d rest, cs = d :: rest ∧ d.isDigit = true := by
  obtain @⟨whole, places, tail, shift, hwhole, hne, -, -⟩ := h
  obtain ⟨d, others, rfl⟩ := List.exists_cons_of_ne_nil hne
  exact ⟨d, _, rfl, hwhole d List.mem_cons_self⟩

/-- What a numeral is written with. -/
theorem Spells.mem_marks {cs : List Char} {digits : ℕ} {exponent : ℤ} (h : Spells cs digits exponent) :
    ∀ c ∈ cs, c.isDigit = true ∨ c ∈ ['.', 'e', '+', '-'] := by
  obtain @⟨whole, places, tail, shift, hwhole, -, hplaces, hscale⟩ := h
  intro c hc
  simp only [List.mem_append, or_assoc] at hc
  rcases hc with hc | hc | hc
  · exact .inl (hwhole c hc)
  · rw [pointed] at hc
    split_ifs at hc with hpoint
    · simp at hc
    · rcases List.mem_cons.mp hc with rfl | hc
      · simp
      · exact .inl (hplaces c hc)
  · cases hscale with
    | none => simp at hc
    | up hds hne =>
        simp only [List.mem_cons] at hc
        rcases hc with rfl | rfl | hc
        · simp
        · simp
        · exact .inl (hds c hc)
    | down hds hne =>
        simp only [List.mem_cons] at hc
        rcases hc with rfl | rfl | hc
        · simp
        · simp
        · exact .inl (hds c hc)

/-! ## The natural text -/

theorem ofDigitChars_append_zeros (ds : List Char) (k : ℕ) :
    Nat.ofDigitChars 10 (ds ++ List.replicate k '0') 0 = Nat.ofDigitChars 10 ds 0 * 10 ^ k := by
  rw [Nat.ofDigitChars_append, Nat.ofDigitChars_replicate_zero, Nat.mul_comm]

theorem ofDigitChars_zeros_append (ds : List Char) (k : ℕ) :
    Nat.ofDigitChars 10 (List.replicate k '0' ++ ds) 0 = Nat.ofDigitChars 10 ds 0 := by
  rw [Nat.ofDigitChars_append, Nat.ofDigitChars_replicate_zero, Nat.mul_zero]

/-- An exponent is written with a sign and with at least as many digits as are asked for. -/
theorem scaleText_padded (width : ℕ) (lead : ℤ) :
    ScaleText ('e' :: (if lead < 0 then '-' else '+') :: (padded width lead.natAbs).toList) lead := by
  obtain ⟨zeros, hzeros⟩ : ∃ zeros, (padded width lead.natAbs).toList =
      List.replicate zeros '0' ++ Nat.toDigits 10 lead.natAbs :=
    ⟨_, by rw [padded, String.toList_append, String.toList_ofList, Nat.toString_eq_ofList_toDigits,
      String.toList_ofList]⟩
  have hdigits := (allDigits_zeros zeros).append (allDigits_toDigits lead.natAbs)
  have hne : List.replicate zeros '0' ++ Nat.toDigits 10 lead.natAbs ≠ [] := by simp
  have hvalue : Nat.ofDigitChars 10 (List.replicate zeros '0' ++ Nat.toDigits 10 lead.natAbs) 0 =
      lead.natAbs := by
    rw [ofDigitChars_zeros_append, Nat.ofDigitChars_ten_toDigits]
  rw [hzeros]
  split_ifs with hneg
  · have hdown := ScaleText.down hdigits hne
    rwa [hvalue, show -(lead.natAbs : ℤ) = lead by omega] at hdown
  · have hup := ScaleText.up hdigits hne
    rwa [hvalue, show (lead.natAbs : ℤ) = lead by omega] at hup

theorem toList_pointed (places : List Char) :
    (if (String.ofList places).isEmpty then "" else "." ++ String.ofList places).toList =
      pointed places := by
  cases places with
  | nil => simp [pointed]
  | cons c places => simp [pointed, String.isEmpty_iff]

/-- A text is a numeral of the same value as a decimal. -/
def SpellsValue (cs : List Char) (c : Decimal) : Prop :=
  ∃ digits exponent, Spells cs digits exponent ∧ Decimal.value ⟨digits, exponent⟩ = c.value

section Layout

variable {c : Decimal} {ds : List Char} (hdigits : AllDigits ds)
  (hvalue : Nat.ofDigitChars 10 ds 0 = c.digits)

include hdigits hvalue

/-- A whole number: zeros follow the digits. -/
theorem spellsValue_whole (hne : ds ≠ []) {k : ℕ} (hk : c.exponent = k) :
    SpellsValue (ds ++ List.replicate k '0' ++ pointed ['0']) c := by
  have hspells := Spells.mk (hdigits.append (allDigits_zeros k)) (by simp [hne]) (allDigits_zeros 1) .none
  rw [List.append_nil] at hspells
  refine ⟨_, _, hspells, ?_⟩
  rw [ofDigitChars_append_zeros, ofDigitChars_append_zeros, hvalue, Decimal.value, Decimal.value, hk]
  simp

/-- A number below one: zeros precede the digits. -/
theorem spellsValue_below {k : ℕ} (hk : c.exponent = -(k + ds.length : ℕ)) :
    SpellsValue ('0' :: pointed (List.replicate k '0' ++ ds)) c := by
  have hspells := Spells.mk (allDigits_zeros 1) (by simp) ((allDigits_zeros k).append hdigits) .none
  rw [List.append_nil] at hspells
  refine ⟨_, _, hspells, ?_⟩
  rw [ofDigitChars_zeros_append, ofDigitChars_zeros_append, hvalue, List.length_append,
    List.length_replicate, zero_sub, ← hk]

/-- The point stands between digits, and an exponent may follow. -/
theorem spellsValue_pointed {k : ℕ} (hk : ds.take k ≠ []) {tail : List Char} {shift : ℤ}
    (htail : ScaleText tail shift) (hshift : shift = c.exponent + (ds.length - k : ℕ)) :
    SpellsValue (ds.take k ++ (pointed (ds.drop k) ++ tail)) c := by
  have hplaces : AllDigits (ds.drop k) := fun d hd => hdigits d (List.mem_of_mem_drop hd)
  have hspells := Spells.mk (fun d hd => hdigits d (List.mem_of_mem_take hd)) hk hplaces htail
  rw [List.append_assoc] at hspells
  refine ⟨_, _, hspells, ?_⟩
  rw [List.take_append_drop, hvalue, List.length_drop, hshift, add_sub_cancel_right]

end Layout

/-- The natural text of a decimal is a numeral of the same value. -/
theorem spellsValue_layout (c : Decimal) : SpellsValue (natural.layout c).toList c := by
  obtain ⟨ds, hds⟩ : ∃ ds, ds = Nat.toDigits 10 c.digits := ⟨_, rfl⟩
  have hdigits : AllDigits ds := hds ▸ allDigits_toDigits _
  have hne : ds ≠ [] := hds ▸ Nat.toDigits_ne_nil
  have hvalue : Nat.ofDigitChars 10 ds 0 = c.digits := hds ▸ Nat.ofDigitChars_ten_toDigits
  have hpos : 0 < ds.length := List.length_pos_iff.mpr hne
  rw [FloatFormat.layout]
  simp only [natural, Nat.toString_eq_ofList_toDigits, ← hds, String.length_ofList, String.toList_ofList]
  by_cases hplain : (decide (-4 ≤ c.exponent + ds.length - 1) &&
      decide (c.exponent + ds.length - 1 < 16)) = true
  · rw [if_pos hplain]
    split_ifs with hwhole hsmall
    · obtain ⟨k, hk⟩ := Int.eq_ofNat_of_zero_le hwhole
      refine (congrArg (SpellsValue · c) ?_).mpr (spellsValue_whole hdigits hvalue hne hk)
      simp [pointed, hk]
    · obtain ⟨k, hk⟩ : ∃ k : ℕ, -(c.exponent + ds.length - 1) - 1 = k :=
        ⟨(-(c.exponent + ds.length - 1) - 1).toNat, by omega⟩
      have hexponent : c.exponent = -(k + ds.length : ℕ) := by omega
      refine (congrArg (SpellsValue · c) ?_).mpr (spellsValue_below hdigits hvalue hexponent)
      rw [hk]
      simp [pointed, hne]
    · obtain ⟨k, hk⟩ : ∃ k : ℕ, c.exponent + ds.length - 1 + 1 = k :=
        ⟨(c.exponent + ds.length - 1 + 1).toNat, by omega⟩
      have hplaces : ds.drop k ≠ [] := by
        rw [ne_eq, List.drop_eq_nil_iff]
        omega
      have hfirst : ds.take k ≠ [] := by
        simp [hne]
        omega
      refine (congrArg (SpellsValue · c) ?_).mpr
        (spellsValue_pointed hdigits hvalue hfirst .none (by omega))
      rw [hk, pointed, if_neg hplaces]
      simp
  · rw [if_neg hplain]
    have hfirst : ds.take 1 ≠ [] := by simp [hne]
    refine (congrArg (SpellsValue · c) ?_).mpr (spellsValue_pointed hdigits hvalue hfirst
      (scaleText_padded 2 (c.exponent + ds.length - 1)) (by omega))
    rw [← toList_pointed]
    split_ifs <;> simp

theorem layout_ne_cons (c : Decimal) {mark : Char} (h : mark.isDigit = false) (rest : List Char) :
    (natural.layout c).toList ≠ mark :: rest := by
  obtain ⟨_, _, hspells, -⟩ := spellsValue_layout c
  obtain ⟨d, others, heq, hdigit⟩ := hspells.exists_digit
  rw [heq]
  rintro ⟨⟩
  exact Bool.false_ne_true (h.symm.trans hdigit)

/-- Decimals with one text have one value. -/
theorem value_eq_of_layout_eq {c c' : Decimal} (h : natural.layout c = natural.layout c') :
    c.value = c'.value := by
  obtain ⟨digits, exponent, hspells, hvalue⟩ := spellsValue_layout c
  obtain ⟨digits', exponent', hspells', hvalue'⟩ := spellsValue_layout c'
  have hread := hspells.spanDecimal?_eq
  rw [h, hspells'.spanDecimal?_eq] at hread
  cases hread
  exact hvalue.symm.trans hvalue'

/-! ## Texts of doubles -/

/-- The sign that is written in front of a double. -/
def Binary64.negative : Binary64 → Bool
  | .finite d => d.negative
  | .infinite negative => negative
  | .nan => false

/-- The natural text behind the sign. -/
def Binary64.magnitudeText : Binary64 → List Char
  | .finite d => (natural.layout d.decimal).toList
  | .infinite _ => ['i', 'n', 'f']
  | .nan => ['n', 'a', 'n']

theorem toList_text (x : Float) :
    (text x).toList = (if (Binary64.ofFloat x).negative then ['-'] else []) ++
      (Binary64.ofFloat x).magnitudeText := by
  rw [text, FloatFormat.text]
  cases Binary64.ofFloat x with
  | nan => rfl
  | infinite negative => cases negative <;> rfl
  | finite d =>
      change ((if d.negative then "-" else "") ++ natural.layout d.decimal).toList = _
      cases hnegative : d.negative <;> simp [Binary64.negative, Binary64.magnitudeText, hnegative]

theorem magnitudeText_ne_minus (b : Binary64) (rest : List Char) : b.magnitudeText ≠ '-' :: rest := by
  cases b with
  | nan => simp [Binary64.magnitudeText]
  | infinite negative => simp [Binary64.magnitudeText]
  | finite d => exact layout_ne_cons d.decimal rfl rest

theorem eq_of_magnitudeText_eq {b b' : Binary64} (hb : ∀ d, b = .finite d → d.Legal)
    (hb' : ∀ d, b' = .finite d → d.Legal) (hsign : b.negative = b'.negative)
    (h : b.magnitudeText = b'.magnitudeText) : b = b' := by
  cases b with
  | nan =>
      cases b' with
      | nan => rfl
      | infinite negative => cases h
      | finite d => exact absurd h.symm (layout_ne_cons d.decimal rfl _)
  | infinite negative =>
      cases b' with
      | nan => cases h
      | infinite negative => exact congrArg Binary64.infinite hsign
      | finite d => exact absurd h.symm (layout_ne_cons d.decimal rfl _)
  | finite d =>
      cases b' with
      | nan => exact absurd h (layout_ne_cons d.decimal rfl _)
      | infinite negative => exact absurd h (layout_ne_cons d.decimal rfl _)
      | finite d' =>
          have hvalue := value_eq_of_layout_eq (String.toList_inj.mp h)
          exact congrArg Binary64.finite
            (Dyadic.eq_of_value_decimal (hb d rfl) (hb' d' rfl) hsign hvalue)

/-- No two doubles have one natural text. -/
theorem text_injective : Function.Injective text := by
  intro x y h
  have hlists := congrArg String.toList h
  rw [toList_text, toList_text] at hlists
  have hsplit : (Binary64.ofFloat x).negative = (Binary64.ofFloat y).negative ∧
      (Binary64.ofFloat x).magnitudeText = (Binary64.ofFloat y).magnitudeText := by
    cases hx : (Binary64.ofFloat x).negative <;> cases hy : (Binary64.ofFloat y).negative <;>
      simp only [hx, hy, if_true, Bool.false_eq_true, if_false, List.nil_append, List.singleton_append,
        List.cons.injEq, true_and] at hlists
    · exact ⟨rfl, hlists⟩
    · exact absurd hlists (magnitudeText_ne_minus _ _)
    · exact absurd hlists.symm (magnitudeText_ne_minus _ _)
    · exact ⟨rfl, hlists⟩
  apply ofFloat_injective
  exact eq_of_magnitudeText_eq (fun _ => legal_of_ofBits) (fun _ => legal_of_ofBits) hsplit.1 hsplit.2

/-- What the natural text of a double is written with. -/
theorem mem_text {x : Float} {c : Char} (h : c ∈ (text x).toList) :
    c.isDigit = true ∨ c ∈ ['.', 'e', '+', '-', 'n', 'a', 'i', 'f'] := by
  rw [toList_text, List.mem_append] at h
  rcases h with h | h
  · split_ifs at h <;> simp_all
  · cases hb : Binary64.ofFloat x with
    | nan =>
        rw [hb] at h
        fin_cases h <;> simp
    | infinite negative =>
        rw [hb] at h
        fin_cases h <;> simp
    | finite d =>
        rw [hb] at h
        obtain ⟨_, _, hspells, -⟩ := spellsValue_layout d.decimal
        rcases hspells.mem_marks c h with hdigit | hmark
        · exact .inl hdigit
        · exact .inr (List.mem_append_left ['n', 'a', 'i', 'f'] hmark)

end RankingEval.Number
