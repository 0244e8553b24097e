/-
# Packing doubles

A double is stored as a sign, an exponent and a mantissa. This module says which exponents and mantissas
storing and reading leave alone, and that what is read back from a stored number is among them. Storing a
number that does not stand below zero, even one that is too large for the format, gives none that does.
A negated double is read back with the other sign, so that negation turns the order of doubles around.
-/

import Mathlib
import RankingEval.Proofs.Number.Order

namespace RankingEval.Number

open Float.Model Float.Model.UnpackedFloat

/-- The mantissas and exponents of doubles: a mantissa has its full length unless the exponent is the
least one. -/
structure Canonical (m : ℕ) (e : ℤ) : Prop where
  /-- Zero is no mantissa. -/
  pos : 0 < m
  /-- A mantissa has at most 53 places. -/
  lt_two_pow : m < 2 ^ 53
  /-- The exponent is in range from below. -/
  min_le : -1074 ≤ e
  /-- The exponent is in range from above. -/
  le_max : e ≤ 971
  /-- A mantissa has no fewer than 53 places where a lesser exponent exists. -/
  full : e = -1074 ∨ 2 ^ 52 ≤ m

private theorem toNat_one_append_mantissa (m : BitVec 52) :
    (1#1 ++ m).toNat = 2 ^ 52 + m.toNat := by
  rw [BitVec.toNat_append, ← Nat.shiftLeft_add_eq_or_of_lt m.isLt, Nat.shiftLeft_eq]
  rfl

private theorem biasedExponent_eq (e : ℤ) :
    (e + (Format.binary64.exponentBias : ℤ) +
      (Format.binary64.mantissaBitsWithoutImplicit : ℤ)).toNat = (e + 1075).toNat := by
  change (e + 1023 + 52).toNat = _
  omega

private theorem unpack_normal (s : Sign) {e : BitVec 11} (m : BitVec 52) (hlow : e.toNat ≠ 0)
    (hhigh : e.toNat ≠ 2047) :
    UnpackedFloat.unpack .binary64 (packComponents .binary64 s e m) =
      .finite s (2 ^ 52 + m.toNat) (e.toNat - 1075) (by omega) := by
  have hzero : e ≠ 0#11 := fun h => hlow (congrArg BitVec.toNat h)
  have hones : e ≠ -1#11 := fun h => hhigh (congrArg BitVec.toNat h)
  rw [UnpackedFloat.unpack]
  simp only [unpackMantissa_packComponents, unpackExponent_packComponents,
    unpackSign_packComponents, Sign.ofBitVec_toBitVec]
  rw [if_neg hones, if_neg hzero]
  simp only [toNat_one_append_mantissa]
  rfl

private theorem unpack_subnormal (s : Sign) {m : BitVec 52} (hm : 0 < m.toNat) :
    UnpackedFloat.unpack .binary64 (packComponents .binary64 s 0#11 m) =
      .finite s m.toNat (-1074) hm := by
  have hne : m ≠ 0#52 := fun h => hm.ne' (congrArg BitVec.toNat h)
  rw [UnpackedFloat.unpack]
  simp only [unpackMantissa_packComponents, unpackExponent_packComponents,
    unpackSign_packComponents, Sign.ofBitVec_toBitVec]
  rw [if_neg (by decide), if_pos trivial, dif_neg hne]
  rfl

/-- Reading a stored number gives its sign, exponent and mantissa back. -/
theorem unpack_pack_finite (s : Sign) {m : ℕ} {e : ℤ} (h : Canonical m e) :
    (Float.Model.pack (.finite s m e h.pos)).unpack = .finite s m e h.pos := by
  obtain ⟨pos, hlt, hmin, hmax, hfull⟩ := h
  change UnpackedFloat.unpack .binary64 (UnpackedFloat.pack .binary64 (.finite s m e pos)) = _
  rw [UnpackedFloat.pack, biasedExponent_eq]
  dsimp only
  rw [if_neg (by change ¬2048 ≤ _; omega)]
  by_cases hlong : 2 ^ 52 ≤ m
  · have hlog : m.log2 + 1 = Format.binary64.mantissaBits := by
      have hlow : 52 ≤ m.log2 := (Nat.le_log2 pos.ne').mpr hlong
      have hhigh : m.log2 < 53 := (Nat.log2_lt pos.ne').mpr hlt
      change m.log2 + 1 = 53
      omega
    have hexponent : (BitVec.ofNat 11 (e + 1075).toNat).toNat = (e + 1075).toNat := by
      rw [BitVec.toNat_ofNat]
      omega
    have hmantissa : 2 ^ 52 + (BitVec.ofNat 52 m).toNat = m := by
      rw [BitVec.toNat_ofNat]
      omega
    rw [if_pos hlog, unpack_normal s _ (by omega) (by omega)]
    simp only [hmantissa, hexponent]
    congr 1
    omega
  · have hlog : m.log2 + 1 ≠ Format.binary64.mantissaBits := by
      have hhigh : m.log2 < 52 := (Nat.log2_lt pos.ne').mpr (by omega)
      change m.log2 + 1 ≠ 53
      omega
    have hmantissa : (BitVec.ofNat 52 m).toNat = m := by
      rw [BitVec.toNat_ofNat]
      omega
    rw [if_neg hlog]
    refine (unpack_subnormal s (by omega)).trans ?_
    simp only [hmantissa]
    congr 1
    omega

/-- Only canonical mantissas and exponents are read. -/
theorem canonical_of_unpack {x : Float.Model} {s : Sign} {m : ℕ} {e : ℤ} {pos : 0 < m}
    (h : x.unpack = .finite s m e pos) : Canonical m e := by
  rw [Float.Model.unpack, UnpackedFloat.unpack] at h
  have hbias : (Format.binary64.exponentBias : ℤ) = 1023 := rfl
  simp only [hbias] at h
  have hmantissa : (@unpackMantissa .binary64 x.toBits.toBitVec).toNat < 2 ^ 52 := BitVec.isLt _
  have hexponent : (@unpackExponent .binary64 x.toBits.toBitVec).toNat < 2 ^ 11 := BitVec.isLt _
  split_ifs at h with hones hnan hzero hsub
  · obtain ⟨-, rfl, rfl⟩ := UnpackedFloat.finite.inj h
    have : (@unpackExponent .binary64 x.toBits.toBitVec).toNat = 0 := congrArg BitVec.toNat hzero
    refine ⟨pos, ?_, ?_, ?_, ?_⟩ <;> omega
  · obtain ⟨-, rfl, rfl⟩ := UnpackedFloat.finite.inj h
    have hlow : (@unpackExponent .binary64 x.toBits.toBitVec).toNat ≠ 0 :=
      fun h => hzero (BitVec.eq_of_toNat_eq h)
    have hhigh : (@unpackExponent .binary64 x.toBits.toBitVec).toNat ≠ 2047 :=
      fun h => hones (BitVec.eq_of_toNat_eq h)
    have hlong := toNat_one_append_mantissa (@unpackMantissa .binary64 x.toBits.toBitVec)
    refine ⟨pos, ?_, ?_, ?_, ?_⟩ <;> omega

private theorem zero_le_unpackedStanding_packComponents (e : BitVec 11) (m : BitVec 52) :
    toLex (0, toLex (0, 0)) ≤ unpackedStanding
      (UnpackedFloat.unpack .binary64 (packComponents .binary64 .positive e m)) := by
  rw [UnpackedFloat.unpack]
  simp only [unpackMantissa_packComponents, unpackExponent_packComponents,
    unpackSign_packComponents, Sign.ofBitVec_toBitVec]
  split_ifs <;> simp only [unpackedStanding, Prod.Lex.toLex_le_toLex, true_and] <;> omega

/-- Storing a number that does not stand below zero gives none that does. -/
theorem zero_le_unpackedStanding_pack {u : UnpackedFloat}
    (h : toLex (0, toLex (0, 0)) ≤ unpackedStanding u) :
    toLex (0, toLex (0, 0)) ≤ unpackedStanding (Float.Model.pack u).unpack := by
  change _ ≤ unpackedStanding (UnpackedFloat.unpack .binary64 (UnpackedFloat.pack .binary64 u))
  cases u with
  | notANumber => decide
  | zero s => cases s <;> decide
  | infinity s =>
      cases s with
      | negative => exact absurd h (by decide)
      | positive => decide
  | finite s m e pos =>
      cases s with
      | negative =>
          simp only [unpackedStanding, Prod.Lex.toLex_le_toLex] at h
          omega
      | positive =>
          rw [UnpackedFloat.pack]
          dsimp only
          split_ifs
          · exact zero_le_unpackedStanding_packComponents _ _
          · exact zero_le_unpackedStanding_packComponents _ _
          · exact zero_le_unpackedStanding_packComponents _ _

/-! ## Negation -/

/-- Negation turns the sign around, and nothing else. -/
theorem unpack_neg (x : Float) : (-x).toModel.unpack = x.toModel.unpack.neg := by
  change (Float.Model.pack x.toModel.unpack.neg).unpack = _
  cases h : x.toModel.unpack with
  | notANumber => rfl
  | infinity s => cases s <;> rfl
  | zero s => cases s <;> rfl
  | finite s m e pos => exact unpack_pack_finite (-s) (canonical_of_unpack h)

/-- Negated numbers are compared the other way around. -/
theorem compare_neg_neg (u v : UnpackedFloat) : u.neg.compare v.neg = v.compare u := by
  cases u with
  | notANumber => cases v <;> rfl
  | infinity s =>
      cases v with
      | notANumber => rfl
      | infinity t => cases s <;> cases t <;> rfl
      | zero t => cases s <;> rfl
      | finite t n f pos => cases s <;> cases t <;> rfl
  | zero s =>
      cases v with
      | notANumber => rfl
      | infinity t => cases t <;> rfl
      | zero t => rfl
      | finite t n f pos => cases t <;> rfl
  | finite s m e pos =>
      have hswap (n : ℕ) (f : ℤ) : (compare e f).then (compare m n) =
          ((compare f e).then (compare n m)).swap := by
        rw [Ordering.swap_then, ← Std.OrientedOrd.eq_swap, ← Std.OrientedOrd.eq_swap]
      cases v with
      | notANumber => rfl
      | infinity t => cases s <;> cases t <;> rfl
      | zero t => cases s <;> rfl
      | finite t n f pos' =>
          cases s <;> cases t
          · exact congrArg some (hswap n f)
          · rfl
          · rfl
          · exact congrArg some ((congrArg Ordering.swap (hswap n f)).trans Ordering.swap_swap)

theorem float_isNaN_neg (x : Float) : (-x).isNaN = x.isNaN := by
  change (-x).toModel.unpack.isNaN = x.toModel.unpack.isNaN
  rw [unpack_neg]
  cases x.toModel.unpack <;> rfl

theorem float_neg_beq_neg (x y : Float) : (-x == -y) = (y == x) := by
  change ((-x).toModel.unpack.compare (-y).toModel.unpack == some .eq) =
    (y.toModel.unpack.compare x.toModel.unpack == some .eq)
  rw [unpack_neg, unpack_neg, compare_neg_neg]

theorem float_neg_lt_neg_iff (x y : Float) : -x < -y ↔ y < x := by
  change decide (((-x).toModel.unpack.compare (-y).toModel.unpack == some .lt) = true) = true ↔
    decide ((y.toModel.unpack.compare x.toModel.unpack == some .lt) = true) = true
  rw [unpack_neg, unpack_neg, compare_neg_neg]

end RankingEval.Number
